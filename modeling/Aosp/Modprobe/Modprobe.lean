import Mathlib.Data.BitVec
import Mathlib.Data.List.AList
import Aosp.Lib.CString
import Aosp.Lib.Lists

/- `libmodprobe.cpp` and `libmodprobe_ext.cpp`: kernel modules, loaded together with what they
depend on. -/
namespace Aosp.Modprobe

open List Layout CString

/-- Paths, module names and options. -/
abbrev Name := List Byte

def slash : Byte := 0x2f
def colon : Byte := 0x3a
def hyphen : Byte := 0x2d
def underscore : Byte := 0x5f
def space : Byte := 0x20

/-- What follows the last slash. -/
def baseName (path : Name) : Name := (path.reverse.takeWhile (· ≠ slash)).reverse

def makeCanonical (modulePath : Name) : Name :=
  let base := baseName modulePath
  let stop := if ascii ".ko" <:+ modulePath then base.length - 3 else base.length
  if stop ≤ 1 then [] else (base.take stop).map fun b => if b = hyphen then underscore else b

/-- The suffix is in the last part of the path, if anywhere. -/
theorem suffix_baseName (path : Name) : ascii ".ko" <:+ baseName path ↔ ascii ".ko" <:+ path := by
  rw [baseName, ← reverse_prefix, reverse_reverse, Lists.starts_takeWhile (by decide),
    reverse_prefix]

theorem baseName_append_slash (directory path : Name) :
    baseName (directory ++ slash :: path) = baseName path := by
  have stops : (path.reverse ++ slash :: directory.reverse).takeWhile (· ≠ slash) =
      path.reverse.takeWhile (· ≠ slash) := by
    rw [takeWhile_append]
    split
    next whole =>
      rw [takeWhile_cons_of_neg (by simp), append_nil]
      refine (IsPrefix.eq_of_length ?_ whole).symm
      exact takeWhile_prefix _
    next => rfl
  rw [baseName, baseName, reverse_append, reverse_cons, append_assoc, singleton_append, stops]

theorem makeCanonical_append_slash (directory path : Name) :
    makeCanonical (directory ++ slash :: path) = makeCanonical path := by
  have ends : ascii ".ko" <:+ directory ++ slash :: path ↔ ascii ".ko" <:+ path := by
    rw [← suffix_baseName, baseName_append_slash, suffix_baseName]
  simp [makeCanonical, baseName_append_slash, ends]

/-- `module_deps_`: for each module its file and the files it depends on. -/
structure Dependencies where
  files : AList fun _ : Name => List Name
  named : ∀ name deps, files.lookup name = some deps → ∃ path rest, deps = path :: rest ∧
    makeCanonical path = name

namespace Dependencies

def empty : Dependencies :=
  ⟨∅, fun name deps found => by rw [AList.lookup_empty] at found; cases found⟩

/-- A path of `modules.dep`, which may be relative to its directory. -/
def locate (basePath path : Name) : Name :=
  if path.head? ≠ some slash then basePath ++ slash :: path else path

theorem makeCanonical_locate (basePath path : Name) :
    makeCanonical (locate basePath path) = makeCanonical path := by
  unfold locate
  split
  · exact makeCanonical_append_slash basePath path
  · rfl

/-- `deps` of a line, without the check of the name. -/
def lineDeps (basePath first : Name) (rest : List Name) : List Name :=
  locate basePath first :: rest.map (locate basePath)

/-- `ParseDepCallback`, with what a line adds. The first word is cut at its colon. -/
def parseDepCallback (d : Dependencies) (basePath word : Name) (rest : List Name) :
    Bool × Dependencies :=
  if colon ∈ word then
    let first := word.takeWhile (· ≠ colon)
    if makeCanonical first = [] then (false, d)
    else (true, {
      files := d.files.insert (makeCanonical first) (lineDeps basePath first rest)
      named := by
        intro name deps found
        by_cases same : name = makeCanonical first
        · subst same
          rw [AList.lookup_insert] at found
          cases found
          exact ⟨_, _, rfl, makeCanonical_locate basePath first⟩
        · rw [AList.lookup_insert_ne same] at found
          exact d.named name deps found })
  else (false, d)

end Dependencies

/-- The members of `Modprobe` that the constructor reads from the files. -/
structure Config where
  moduleAliases : List (Name × Name)
  moduleDeps : Dependencies
  modulePreSoftdep : List (Name × Name)
  modulePostSoftdep : List (Name × Name)
  moduleLoad : List Name
  moduleOptions : AList fun _ : Name => Name
  moduleBlocklist : List Name
  blocklistEnabled : Bool

/-- How `open` and `finit_module` have ended. -/
inductive Outcome where
  | notOpened
  | failed
  | exists
  | loaded
deriving DecidableEq

def Outcome.succeeded : Outcome → Bool
  | .notOpened | .failed => false
  | .exists | .loaded => true

/-- A call of `Insmod`. -/
structure Call where
  pathName : Name
  options : Name
  outcome : Outcome
deriving DecidableEq

/-- The file system and the kernel, which may answer as they like to each call after the ones
before. -/
structure World where
  fnmatch : Name → Name → Bool
  isRegularFile : Name → Bool
  insmod : List Call → Name → Name → Outcome

/-- The members that change, and the calls of `Insmod` so far. -/
structure State where
  moduleLoaded : List Name
  moduleLoadedPaths : List Name
  moduleCount : Nat
  calls : List Call

def State.start : State := ⟨[], [], 0, []⟩

section Load

variable (w : World) (c : Config)

def getDependencies (module : Name) : List Name := (c.moduleDeps.files.lookup module).getD []

def insmod (pathName parameters : Name) (st : State) : Bool × State :=
  let canonicalName := makeCanonical pathName
  let given := (c.moduleOptions.lookup canonicalName).getD []
  let options := if parameters ≠ [] then given ++ [space] ++ parameters else given
  let outcome := w.insmod st.calls pathName options
  let calls := st.calls ++ [⟨pathName, options, outcome⟩]
  if outcome.succeeded then
    (true, ⟨st.moduleLoaded.insert canonicalName, st.moduleLoadedPaths.insert pathName,
      if outcome = .loaded then st.moduleCount + 1 else st.moduleCount, calls⟩)
  else (false, { st with calls := calls })

theorem insmod_eq (pathName parameters : Name) (st : State) :
    ∃ call, call.pathName = pathName ∧ (insmod w c pathName parameters st).1 =
      call.outcome.succeeded ∧
      (insmod w c pathName parameters st).2.calls = st.calls ++ [call] ∧
      (insmod w c pathName parameters st).2.moduleLoaded =
        if call.outcome.succeeded then st.moduleLoaded.insert (makeCanonical pathName)
        else st.moduleLoaded := by
  unfold insmod
  dsimp only
  generalize (if parameters ≠ [] then _ else _ : Name) = options
  refine ⟨⟨pathName, options, w.insmod st.calls pathName options⟩, rfl, ?_⟩
  cases done : (w.insmod st.calls pathName options).succeeded with
  | true => exact ⟨rfl, rfl, rfl⟩
  | false => exact ⟨rfl, rfl, rfl⟩

variable (moduleName : Name)

def moduleExists : Bool :=
  if c.blocklistEnabled ∧ moduleName ∈ c.moduleBlocklist then false
  else
    match getDependencies c moduleName with
    | [] => false
    | file :: _ => w.isRegularFile file

/-- Loads in order, until one fails. -/
def loadAll (load : Name → State → Option (Bool × State)) :
    List Name → State → Option (Bool × State)
  | [], st => some (true, st)
  | module :: rest, st => do
      let (loaded, st) ← load module st
      if loaded then loadAll load rest st else some (false, st)

/-- Loads in order, whatever comes of it. -/
def tryAll (load : Name → State → Option (Bool × State)) : List Name → State → Option State
  | [], st => some st
  | module :: rest, st => do
      let (_, st) ← load module st
      tryAll load rest st

/-- The second halves of the pairs for a module. -/
def softdepsOf (softdeps : List (Name × Name)) : List Name :=
  (softdeps.filter fun pair => moduleName = pair.1).map Prod.snd

/-- `InsmodWithDeps`. The loads inside are `load`, with its argument `strict`. -/
def insmodWithDeps (load : Bool → Name → State → Option (Bool × State))
    (moduleName parameters : Name) (st : State) : Option (Bool × State) :=
  if moduleName = [] then some (false, st)
  else
    match getDependencies c moduleName with
    | [] => some (false, st)
    | file :: hard => do
        let (loaded, st) ← loadAll (load true) hard.reverse st
        if loaded then
          let st ← tryAll (load false) (softdepsOf moduleName c.modulePreSoftdep) st
          let (inserted, st) := insmod w c file parameters st
          if inserted then
            let st ← tryAll (load false) (softdepsOf moduleName c.modulePostSoftdep) st
            some (true, st)
          else some (false, st)
        else some (false, st)

/-- The modules that a name stands for. -/
def modulesToLoad (st : State) : List Name :=
  let aliased := c.moduleAliases.filter fun pair =>
    w.fnmatch pair.1 moduleName && makeCanonical pair.2 ∉ st.moduleLoaded
  (aliased.map Prod.snd).foldl (fun set module => emplace module set) [makeCanonical moduleName]

/-- The loop over these modules. -/
def attemptAll (attempt : Name → State → Option (Bool × State)) :
    List Name → State → Option (Bool × State)
  | [], st => some (false, st)
  | module :: rest, st => do
      if moduleExists w c module then
        let (loaded, st) ← attempt module st
        let (later, st) ← attemptAll attempt rest st
        some (loaded || later, st)
      else attemptAll attempt rest st

/-- `LoadWithAliases`, with a bound on the depth of the calls; none if it is reached. -/
def loadWithAliases : Nat → Name → Bool → Name → State → Option (Bool × State)
  | 0, _, _, _, _ => none
  | depth + 1, moduleName, strict, parameters, st =>
    if makeCanonical moduleName ∈ st.moduleLoaded then some (true, st)
    else do
      let load (strict : Bool) (module : Name) := loadWithAliases depth module strict []
      let (loaded, st) ← attemptAll w c (fun module => insmodWithDeps w c load module parameters)
        (modulesToLoad w c moduleName st) st
      some (!(strict && !loaded), st)

def isBlocklisted : Bool :=
  if c.blocklistEnabled then
    (getDependencies c (makeCanonical moduleName)).any
      (fun dep => makeCanonical dep ∈ c.moduleBlocklist) ||
      makeCanonical moduleName ∈ c.moduleBlocklist
  else false

/-- The loop of `LoadListedModules`. -/
def loadListed (depth : Nat) (strict : Bool) : List Name → State → Option (Bool × State)
  | [], st => some (true, st)
  | module :: rest, st => do
      let (loaded, st) ← loadWithAliases w c depth module true [] st
      if loaded || isBlocklisted c module then loadListed depth strict rest st
      else if strict then some (false, st)
      else do
        let (_, st) ← loadListed depth strict rest st
        some (false, st)

def loadListedModules (depth : Nat) (strict : Bool) (st : State) : Option (Bool × State) :=
  loadListed w c depth strict c.moduleLoad st

end Load

end Aosp.Modprobe
