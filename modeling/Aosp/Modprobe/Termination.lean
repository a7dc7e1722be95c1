import Mathlib.Data.Finset.Card
import Mathlib.Data.Finset.Dedup
import Aosp.Modprobe.LoadOrder

namespace Aosp.Modprobe

open List CString Subset

variable {w : World} {c : Config}

section Ranks

variable (w c)

/-- What a load of a name tries from a state: the module of that name, and those with an alias that
it matches. -/
def Attempts (st : State) (name module : Name) : Prop :=
  makeCanonical name ∉ st.moduleLoaded ∧ moduleExists w c module = true ∧
    (module = makeCanonical name ∨ ∃ pair ∈ c.moduleAliases, w.fnmatch pair.1 name = true ∧
      makeCanonical pair.2 ∉ st.moduleLoaded ∧ module = pair.2)

/-- What is loaded before the name is known to be loaded: the hard and the soft pre-dependencies. An
alias that is not a canonical name is never known to be loaded. -/
def before (name module : Name) : List Name :=
  hardDeps c module ++ softdepsOf module c.modulePreSoftdep ++
    if module = makeCanonical name ∨ makeCanonical module = module then []
    else softdepsOf module c.modulePostSoftdep

/-- How many modules are not loaded yet. -/
def unloaded (st : State) : Nat :=
  (c.moduleDeps.files.keys.toFinset \ st.moduleLoaded.toFinset).card

end Ranks

/-- What was loaded stays loaded. -/
abbrev State.Keeps (st st' : State) : Prop := st.moduleLoaded ⊆ st'.moduleLoaded

variable {st st' : State} {α β : Type} {final : α → State} {final' : β → State} {module : Name}

/-- The run ends with such a state. -/
def Reaches (st : State) (final : α → State) (run : Option α) : Prop :=
  ∃ result, run = some result ∧ st.Keeps (final result)

/-- A load ends whatever has been loaded in the meantime. -/
def Ready (load : State → Option (Bool × State)) (st : State) : Prop :=
  ∀ st', st.Keeps st' → Reaches st' Prod.snd (load st')

theorem Reaches.bind {run : Option α} {next : α → Option β} (first : Reaches st final run)
    (later : ∀ result, st.Keeps (final result) → Reaches (final result) final' (next result)) :
    Reaches st final' (run >>= next) := by
  obtain ⟨result, rfl, kept⟩ := first
  obtain ⟨result', run, kept'⟩ := later result kept
  exact ⟨result', run, Subset.trans kept kept'⟩

theorem Ready.later {load : State → Option (Bool × State)} (ready : Ready load st)
    (kept : st.Keeps st') :
    Ready load st' :=
  fun st'' kept' => ready st'' (Subset.trans kept kept')

theorem Ready.now {load : State → Option (Bool × State)} (ready : Ready load st) :
    Reaches st Prod.snd (load st) :=
  ready st (refl _)

variable {load : Name → State → Option (Bool × State)} {names : List Name}

/-- What is attempted later was attempted at the start already. -/
theorem Attempts.earlier {name : Name} (attempts : Attempts w c st' name module)
    (kept : st.Keeps st') :
    Attempts w c st name module := by
  obtain ⟨absent, found, stands⟩ := attempts
  refine ⟨fun loaded => absent (kept loaded), found, stands.imp_right ?_⟩
  rintro ⟨pair, listed, matched, fresh, rfl⟩
  exact ⟨pair, listed, matched, fun loaded => fresh (kept loaded), rfl⟩

end Aosp.Modprobe
