import Aosp.Lib.Codec
import Aosp.Lib.Compare

/- Strings of bytes, compared as `std::string` compares them. -/
namespace CString

open Layout Compare

/-- The text as bytes. -/
def ascii (text : String) : List Byte := text.toList.map fun c => BitVec.ofNat 8 c.toNat

/-- `std::string::compare`: the first bytes that differ decide, as unsigned
numbers, and a string is behind the ones it starts with. -/
def strcmp : List Byte → List Byte → Int
  | [], [] => 0
  | [], _ :: _ => -1
  | _ :: _, [] => 1
  | x :: xs, y :: ys =>
    if x.toNat < y.toNat then -1 else if y.toNat < x.toNat then 1 else strcmp xs ys

/-- `std::set::emplace`, on the sorted list of the elements. -/
def emplace (s : List Byte) : List (List Byte) → List (List Byte)
  | [] => [s]
  | first :: rest =>
    if strcmp s first < 0 then s :: first :: rest
    else if strcmp s first = 0 then first :: rest
    else first :: emplace s rest

end CString
