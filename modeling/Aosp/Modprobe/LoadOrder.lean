import Mathlib.Logic.Relation
import Aosp.Modprobe.Modprobe

namespace Aosp.Modprobe

open Option List CString Relation

variable {w : World} {c : Config}

section Runs

variable (c)

/-- The file of a module. -/
def IsFile (module path : Name) : Prop := ∃ rest, getDependencies c module = path :: rest

/-- The files that a module depends on. -/
def hardDeps (module : Name) : List Name := (getDependencies c module).tail

variable (calls : List Call)

/-- One of the calls has loaded the file of the module. -/
def LoadedBy (module : Name) : Prop :=
  ∃ call ∈ calls, call.outcome.succeeded = true ∧ IsFile c module call.pathName

/-- `Insmod` is called for a module only when all that it depends on has been loaded. -/
def Ordered : Prop :=
  ∀ i call, calls[i]? = some call → ∀ module, IsFile c module call.pathName →
    ∀ dep ∈ hardDeps c module, LoadedBy c (calls.take i) (makeCanonical dep)

/-- No module is loaded twice. -/
def Once : Prop :=
  ((calls.filter fun call => call.outcome.succeeded).map fun call =>
    makeCanonical call.pathName).Nodup

/-- A module that is loaded on the way of another one. -/
inductive Edge (module : Name) : Name → Prop
  | hard {dep : Name} (member : dep ∈ hardDeps c module) : Edge module (makeCanonical dep)
  | pre {softdep : Name} (member : (module, softdep) ∈ c.modulePreSoftdep) :
    Edge module (makeCanonical softdep)
  | post {softdep : Name} (member : (module, softdep) ∈ c.modulePostSoftdep) :
    Edge module (makeCanonical softdep)

def Acyclic (edge : Name → Name → Prop) : Prop := ∀ module, ¬ TransGen edge module module

end Runs

variable {module : Name}

theorem IsFile.makeCanonical_eq {path : Name} (file : IsFile c module path) :
    makeCanonical path = module := by
  obtain ⟨rest, deps⟩ := file
  unfold getDependencies at deps
  cases found : c.moduleDeps.files.lookup module with
  | none =>
    rw [found] at deps
    cases deps
  | some files =>
    rw [found] at deps
    obtain ⟨path', rest', shape, named⟩ := c.moduleDeps.named module files found
    cases deps.symm.trans shape
    exact named

variable {calls : List Call}

theorem loadedBy_append {more : List Call} :
    LoadedBy c (calls ++ more) module ↔ LoadedBy c calls module ∨ LoadedBy c more module := by
  simp [LoadedBy, or_and_right, exists_or]

/-- The members of `Modprobe` and the calls agree. -/
structure Consistent (c : Config) (st : State) : Prop where
  loaded : ∀ module, module ∈ st.moduleLoaded ↔ LoadedBy c st.calls module
  files : ∀ call ∈ st.calls, ∃ module, IsFile c module call.pathName
  ordered : Ordered c st.calls

theorem consistent_start : Consistent c State.start where
  loaded _ := ⟨nofun, fun ⟨_, member, _⟩ => nomatch member⟩
  files := nofun
  ordered := nofun

/-- What a part of a run does: its calls are for the modules in `reach`. -/
structure Effect (c : Config) (reach : Name → Prop) (st st' : State) : Prop where
  consistent : Consistent c st'
  calls : ∃ more, st'.calls = st.calls ++ more ∧ ∀ call ∈ more, ∃ module, reach module ∧
    IsFile c module call.pathName
  once : c.modulePostSoftdep = [] → Acyclic (Edge c) → Once st.calls → Once st'.calls

variable {reach reach' : Name → Prop} {st st' st'' : State}

namespace Effect

theorem refl (consistent : Consistent c st) : Effect c reach st st :=
  ⟨consistent, ⟨[], (append_nil _).symm, nofun⟩, fun _ _ once => once⟩

theorem trans (first : Effect c reach st st') (second : Effect c reach st' st'') :
    Effect c reach st st'' := by
  obtain ⟨more, grown, each⟩ := first.calls
  obtain ⟨more', grown', each'⟩ := second.calls
  refine ⟨second.consistent, ⟨more ++ more', by simp [grown', grown], ?_⟩, ?_⟩
  · intro call member
    exact (mem_append.mp member).elim (each call) (each' call)
  · intro noPost acyclic once
    exact second.once noPost acyclic (first.once noPost acyclic once)

theorem mono (effect : Effect c reach st st') (wider : ∀ module, reach module → reach' module) :
    Effect c reach' st st' := by
  obtain ⟨more, grown, each⟩ := effect.calls
  refine ⟨effect.consistent, ⟨more, grown, fun call member => ?_⟩, effect.once⟩
  obtain ⟨module, inside, file⟩ := each call member
  exact ⟨module, wider module inside, file⟩

variable {module : Name}

theorem kept (effect : Effect c reach st st') (consistent : Consistent c st)
    (loaded : module ∈ st.moduleLoaded) :
    module ∈ st'.moduleLoaded := by
  obtain ⟨more, grown, -⟩ := effect.calls
  rw [effect.consistent.loaded, grown, loadedBy_append]
  exact .inl ((consistent.loaded module).mp loaded)

theorem unloaded (effect : Effect c reach st st') (consistent : Consistent c st)
    (outside : ¬ reach module) (unloaded : module ∉ st.moduleLoaded) :
    module ∉ st'.moduleLoaded := by
  obtain ⟨more, grown, each⟩ := effect.calls
  rw [effect.consistent.loaded, grown, loadedBy_append, ← consistent.loaded]
  rintro (before | ⟨call, new, -, file⟩)
  · exact unloaded before
  · obtain ⟨module', inside, file'⟩ := each call new
    rw [← file.makeCanonical_eq, file'.makeCanonical_eq] at outside
    exact outside inside

end Effect

/-- What a load in one of the loops does. -/
def Does (c : Config) (reach : Name → Prop) (load : Name → State → Option (Bool × State))
    (post : Name → State → Prop) (module : Name) : Prop :=
  ∀ st loaded st', Consistent c st → load module st = some (loaded, st') →
    Effect c reach st st' ∧ (loaded = true → post module st')

variable {load : Name → State → Option (Bool × State)} {modules : List Name} {loaded : Bool}

theorem effect_loadAll
    (each : ∀ module ∈ modules, Does c reach load
      (fun m st => makeCanonical m ∈ st.moduleLoaded) module)
    (consistent : Consistent c st) (run : loadAll load modules st = some (loaded, st')) :
    Effect c reach st st' ∧ (loaded = true → ∀ module ∈ modules,
      makeCanonical module ∈ st'.moduleLoaded) := by
  induction modules generalizing st with
  | nil =>
    cases run
    exact ⟨.refl consistent, nofun⟩
  | cons module rest ih =>
    rw [loadAll, bind_eq_bind, bind_eq_some_iff] at run
    obtain ⟨⟨ok, st₁⟩, first, run⟩ := run
    obtain ⟨effect, here⟩ := each module mem_cons_self st ok st₁ consistent first
    cases ok with
    | false =>
      cases run
      exact ⟨effect, nofun⟩
    | true =>
      obtain ⟨effect', later⟩ := ih (fun m member => each m (mem_cons_of_mem _ member))
        effect.consistent run
      refine ⟨effect.trans effect', fun all m member => ?_⟩
      rcases mem_cons.mp member with rfl | behind
      · exact effect'.kept effect.consistent (here rfl)
      · exact later all m behind

theorem effect_tryAll (each : ∀ module ∈ modules, Does c reach load (fun _ _ => True) module)
    (consistent : Consistent c st) (run : tryAll load modules st = some st') :
    Effect c reach st st' := by
  induction modules generalizing st with
  | nil =>
    cases run
    exact .refl consistent
  | cons module rest ih =>
    rw [tryAll, bind_eq_bind, bind_eq_some_iff] at run
    obtain ⟨⟨ok, st₁⟩, first, run⟩ := run
    obtain ⟨effect, -⟩ := each module mem_cons_self st ok st₁ consistent first
    exact effect.trans (ih (fun m member => each m (mem_cons_of_mem _ member))
      effect.consistent run)

theorem mem_softdepsOf {softdep : Name} {softdeps : List (Name × Name)} :
    softdep ∈ softdepsOf module softdeps ↔ (module, softdep) ∈ softdeps := by
  simp only [softdepsOf, List.mem_map, mem_filter, decide_eq_true_eq]
  constructor
  · rintro ⟨⟨_, _⟩, ⟨member, rfl⟩, rfl⟩
    exact member
  · intro member
    exact ⟨_, ⟨member, rfl⟩, rfl⟩

variable {call : Call}

theorem ordered_concat (ordered : Ordered c calls)
    (ready : ∀ module, IsFile c module call.pathName → ∀ dep ∈ hardDeps c module,
      LoadedBy c calls (makeCanonical dep)) :
    Ordered c (calls ++ [call]) := by
  intro i call' here module file dep member
  rcases lt_or_ge i calls.length with inside | behind
  · rw [getElem?_append_left inside] at here
    rw [take_append_of_le_length (le_of_lt inside)]
    exact ordered i call' here module file dep member
  · rw [getElem?_append_right behind] at here
    have last : i = calls.length := by
      have := (List.getElem?_eq_some_iff.mp here).1
      simp only [length_singleton] at this
      omega
    subst last
    rw [Nat.sub_self] at here
    cases here
    rw [take_left]
    exact ready module file dep member

theorem once_concat (files : ∀ call ∈ calls, ∃ module, IsFile c module call.pathName)
    (once : Once calls) (new : ¬ LoadedBy c calls (makeCanonical call.pathName)) :
    Once (calls ++ [call]) := by
  unfold Once at once ⊢
  rw [filter_append, map_append]
  cases succeeded : call.outcome.succeeded with
  | false =>
    simp only [filter_cons, succeeded, Bool.false_eq_true, ↓reduceIte, filter_nil, map_nil,
      append_nil]
    exact once
  | true =>
    simp only [filter_cons, succeeded, ↓reduceIte, filter_nil, map_singleton]
    refine nodup_append'.mpr ⟨once, nodup_singleton _, ?_⟩
    rw [disjoint_singleton]
    intro member
    obtain ⟨call', kept, same⟩ := mem_map.mp member
    obtain ⟨before, succeeded'⟩ := mem_filter.mp kept
    obtain ⟨module, file⟩ := files call' before
    refine new ⟨call', before, succeeded', ?_⟩
    rw [← same, file.makeCanonical_eq]
    exact file

theorem effect_insmod (consistent : Consistent c st) {file : Name} (isFile : IsFile c module file)
    (ready : ∀ dep ∈ hardDeps c module, makeCanonical dep ∈ st.moduleLoaded)
    (unloaded : Acyclic (Edge c) → module ∉ st.moduleLoaded) (parameters : Name) {inserted : Bool}
    (run : insmod w c file parameters st = (inserted, st')) :
    Effect c (· = module) st st' ∧ (inserted = true → module ∈ st'.moduleLoaded) := by
  obtain ⟨call, path, succeeded, calls, loaded⟩ := insmod_eq w c file parameters st
  rw [run, isFile.makeCanonical_eq] at loaded
  rw [run] at succeeded calls
  have isFile' : IsFile c module call.pathName := path ▸ isFile
  have new : LoadedBy c [call] = fun module' => call.outcome.succeeded = true ∧
      module' = module := by
    funext module'
    refine propext ⟨?_, ?_⟩
    · rintro ⟨call', member, done, file'⟩
      cases mem_singleton.mp member
      exact ⟨done, file'.makeCanonical_eq.symm.trans isFile'.makeCanonical_eq⟩
    · rintro ⟨done, rfl⟩
      exact ⟨call, mem_cons_self, done, isFile'⟩
  have consistent' : Consistent c st' := by
    refine ⟨?_, ?_, ?_⟩
    · intro module'
      rw [loaded, calls, loadedBy_append, new, ← consistent.loaded]
      cases call.outcome.succeeded with
      | false => simp
      | true => simp [or_comm]
    · intro call' member
      rw [calls] at member
      rcases mem_append.mp member with before | last
      · exact consistent.files call' before
      · exact ⟨module, mem_singleton.mp last ▸ isFile'⟩
    · rw [calls]
      refine ordered_concat consistent.ordered fun module' file' dep member => ?_
      cases file'.makeCanonical_eq.symm.trans isFile'.makeCanonical_eq
      exact (consistent.loaded _).mp (ready dep member)
  refine ⟨⟨consistent', ⟨[call], calls, fun call' member => ?_⟩, fun _ acyclic once => ?_⟩,
    fun done => ?_⟩
  · exact ⟨module, rfl, mem_singleton.mp member ▸ isFile'⟩
  · rw [calls]
    apply once_concat consistent.files once
    rw [isFile'.makeCanonical_eq, ← consistent.loaded]
    exact unloaded acyclic
  · rw [loaded, ← succeeded, done]
    exact mem_insert_self

theorem effect_insmodWithDeps {load : Bool → Name → State → Option (Bool × State)}
    (each : ∀ strict m, Does c (ReflTransGen (Edge c) (makeCanonical m)) (load strict)
      (fun m st => strict = true → makeCanonical m ∈ st.moduleLoaded) m)
    (consistent : Consistent c st) (unloaded : module ∉ st.moduleLoaded) {parameters : Name}
    (run : insmodWithDeps w c load module parameters st = some (loaded, st')) :
    Effect c (ReflTransGen (Edge c) module) st st' ∧
      (loaded = true → module ∈ st'.moduleLoaded) := by
  have below {strict : Bool} {m : Name} (edge : Edge c module (makeCanonical m)) {st st' : State}
      {loaded : Bool} (consistent : Consistent c st) (run : load strict m st = some (loaded, st')) :
      Effect c (TransGen (Edge c) module) st st' ∧
        (loaded = true → strict = true → makeCanonical m ∈ st'.moduleLoaded) := by
    obtain ⟨effect, post⟩ := each strict m st loaded st' consistent run
    exact ⟨effect.mono fun _ reaches => .head' edge reaches, post⟩
  have widen {st st' : State} (effect : Effect c (TransGen (Edge c) module) st st') :
      Effect c (ReflTransGen (Edge c) module) st st' := effect.mono fun _ reaches =>
      reaches.to_reflTransGen
  unfold insmodWithDeps at run
  split at run
  · cases run
    exact ⟨.refl consistent, nofun⟩
  · cases deps : getDependencies c module with
    | nil =>
      rw [deps] at run
      cases run
      exact ⟨.refl consistent, nofun⟩
    | cons file hard =>
      have isFile : IsFile c module file := ⟨hard, deps⟩
      have hard_eq : hardDeps c module = hard := by rw [hardDeps, deps]; rfl
      simp only [deps, bind_eq_bind, bind_eq_some_iff] at run
      obtain ⟨⟨ok, st₁⟩, first, run⟩ := run
      obtain ⟨effect₁, ready⟩ := effect_loadAll (fun m member st loaded st' consistent run => by
        have edge : Edge c module (makeCanonical m) := .hard (hard_eq ▸ mem_reverse.mp member)
        obtain ⟨effect, post⟩ := below edge consistent run
        exact ⟨effect, fun ok => post ok rfl⟩) consistent first
      cases ok with
      | false =>
        cases run
        exact ⟨widen effect₁, nofun⟩
      | true =>
        simp only [↓reduceIte, bind_eq_some_iff] at run
        obtain ⟨st₂, second, run⟩ := run
        have effect₂ := effect_tryAll (fun m member st loaded st' consistent run => by
          have edge : Edge c module (makeCanonical m) := .pre (mem_softdepsOf.mp member)
          exact ⟨(below edge consistent run).1, fun _ => trivial⟩) effect₁.consistent second
        have before := effect₁.trans effect₂
        have ready' : ∀ dep ∈ hardDeps c module, makeCanonical dep ∈ st₂.moduleLoaded := by
          intro dep member
          rw [hard_eq] at member
          exact effect₂.kept effect₁.consistent (ready rfl dep (mem_reverse.mpr member))
        cases inserted : insmod w c file parameters st₂ with
        | mk ok st₃ =>
          rw [inserted] at run
          obtain ⟨effect₃, here⟩ := effect_insmod before.consistent isFile ready'
            (fun acyclic => before.unloaded consistent (acyclic module) unloaded)
            parameters inserted
          have upTo := (widen before).trans (effect₃.mono fun _ same => same ▸ .refl)
          cases ok with
          | false =>
            cases run
            exact ⟨upTo, nofun⟩
          | true =>
            simp only [↓reduceIte, bind_eq_some_iff] at run
            obtain ⟨st₄, third, run⟩ := run
            cases run
            have effect₄ := effect_tryAll (fun m member st loaded st' consistent run => by
              have edge : Edge c module (makeCanonical m) := .post (mem_softdepsOf.mp member)
              exact ⟨(below edge consistent run).1, fun _ => trivial⟩) effect₃.consistent third
            exact ⟨upTo.trans (widen effect₄), fun _ => effect₄.kept effect₃.consistent (here rfl)⟩

theorem attemptAll_singleton (attempt : Name → State → Option (Bool × State)) (module : Name)
    (st : State) :
    attemptAll w c attempt [module] st = if moduleExists w c module then attempt module st
      else some (false, st) := by
  simp only [attemptAll, bind_eq_bind, bind_some, Bool.or_false]
  cases attempt module st with
  | none => rfl
  | some result => rfl

section

variable (noAliases : c.moduleAliases = [])

include noAliases

theorem does_loadWithAliases (depth : Nat) (strict : Bool) (parameters : Name) (module : Name) :
    Does c (ReflTransGen (Edge c) (makeCanonical module))
      (fun m => loadWithAliases w c depth m strict parameters)
      (fun m st => strict = true → makeCanonical m ∈ st.moduleLoaded) module := by
  induction depth generalizing strict parameters module with
  | zero => exact nofun
  | succ depth ih =>
    intro st loaded st' consistent run
    dsimp only at run
    rw [loadWithAliases] at run
    split at run
    · rename_i already
      cases run
      exact ⟨.refl consistent, fun _ _ => already⟩
    · rename_i unloaded
      dsimp only at run
      have single : modulesToLoad w c module st = [makeCanonical module] := by
        rw [modulesToLoad, noAliases]
        rfl
      rw [single, attemptAll_singleton] at run
      cases present : moduleExists w c (makeCanonical module) with
      | false =>
        simp only [present] at run
        cases run
        refine ⟨.refl consistent, fun ok isStrict => ?_⟩
        rw [isStrict] at ok
        cases ok
      | true =>
        simp only [present, bind_eq_bind, bind_eq_some_iff] at run
        obtain ⟨⟨ok, st₁⟩, attempted, run⟩ := run
        cases run
        obtain ⟨effect, here⟩ := effect_insmodWithDeps
          (fun strict m => ih strict [] m) consistent unloaded attempted
        refine ⟨effect, fun ok isStrict => here ?_⟩
        rw [isStrict] at ok
        simpa using ok

variable {depth : Nat}

theorem effect_loadListed {strict : Bool} (consistent : Consistent c st)
    (run : loadListed w c depth strict modules st = some (loaded, st')) :
    Effect c (fun _ => True) st st' := by
  induction modules generalizing st loaded with
  | nil =>
    cases run
    exact .refl consistent
  | cons module rest ih =>
    simp only [loadListed, bind_eq_bind, bind_eq_some_iff] at run
    obtain ⟨⟨ok, st₁⟩, first, run⟩ := run
    have effect : Effect c (fun _ => True) st st₁ :=
      (does_loadWithAliases noAliases depth true [] module st ok st₁ consistent first).1.mono
        fun _ _ => trivial
    split at run
    · exact effect.trans (ih effect.consistent run)
    · split at run
      · cases run
        exact effect
      · obtain ⟨⟨ok', st₂⟩, later, run⟩ := bind_eq_some_iff.mp run
        cases run
        exact effect.trans (ih effect.consistent later)

/-- The calls that a client makes. -/
inductive Request where
  | loadWithAliases (moduleName : Name) (strict : Bool) (parameters : Name)
  | loadListedModules (strict : Bool)

def serve (w : World) (c : Config) (depth : Nat) (st : State) : Request → Option State
  | .loadWithAliases moduleName strict parameters =>
    (loadWithAliases w c depth moduleName strict parameters st).map Prod.snd
  | .loadListedModules strict => (loadListedModules w c depth strict st).map Prod.snd

theorem effect_serve {request : Request} (consistent : Consistent c st)
    (run : serve w c depth st request = some st') :
    Effect c (fun _ => True) st st' := by
  cases request with
  | loadWithAliases moduleName strict parameters =>
    obtain ⟨⟨ok, st₁⟩, loaded, rfl⟩ := map_eq_some_iff.mp run
    exact (does_loadWithAliases noAliases depth strict parameters moduleName st ok st₁ consistent
      loaded).1.mono fun _ _ => trivial
  | loadListedModules strict =>
    obtain ⟨⟨ok, st₁⟩, loaded, rfl⟩ := map_eq_some_iff.mp run
    exact effect_loadListed noAliases consistent loaded

theorem effect_run {requests : List Request}
    (consistent : Consistent c st) (run : requests.foldlM (serve w c depth) st = some st') :
    Effect c (fun _ => True) st st' := by
  induction requests generalizing st with
  | nil =>
    cases run
    exact .refl consistent
  | cons request requests ih =>
    rw [foldlM_cons, bind_eq_bind, bind_eq_some_iff] at run
    obtain ⟨st₁, first, run⟩ := run
    have effect := effect_serve noAliases consistent first
    exact effect.trans (ih effect.consistent run)

end

/-- Without aliases: `Insmod` is called for a module only when all that it depends on has been
loaded. Without soft dependencies behind modules it succeeds at most once for each module, if the
others have no cycle. -/
theorem modules_loaded_in_order (w : World) (c : Config) (noAliases : c.moduleAliases = [])
    (depth : Nat) (requests : List Request) (st : State)
    (run : requests.foldlM (serve w c depth) State.start = some st) :
    Ordered c st.calls ∧ (c.modulePostSoftdep = [] → Acyclic (Edge c) → Once st.calls) := by
  have effect := effect_run noAliases consistent_start run
  exact ⟨effect.consistent.ordered, fun noPost acyclic => effect.once noPost acyclic nodup_nil⟩

theorem acyclic_of_rank {edge : Name → Name → Prop} (rank : Name → Nat)
    (falls : ∀ module dep, edge module dep → rank dep < rank module) :
    Acyclic edge := by
  intro module cycle
  have less (dep : Name) (path : TransGen edge module dep) : rank dep < rank module := by
    induction path with
    | single edge => exact falls _ _ edge
    | tail _ edge ih => exact lt_trans (falls _ _ edge) ih
  exact lt_irrefl _ (less module cycle)

/-- Two modules, of which the second depends on the first. -/
def twoModules : Config where
  moduleAliases := []
  moduleDeps := ((Dependencies.empty.parseDepCallback (ascii "/m") (ascii "usb.ko:")
    []).2.parseDepCallback (ascii "/m") (ascii "audio.ko:") [ascii "usb.ko"]).2
  modulePreSoftdep := []
  modulePostSoftdep := []
  moduleLoad := [ascii "audio"]
  moduleOptions := ∅
  moduleBlocklist := []
  blocklistEnabled := true

/-- Every call succeeds. -/
def willing : World := ⟨fun _ _ => false, fun _ => true, fun _ _ _ => .loaded⟩

theorem hardDeps_twoModules {dep : Name} (member : dep ∈ hardDeps twoModules module) :
    module = ascii "audio" ∧ dep = ascii "/m/usb.ko" := by
  have files : twoModules.moduleDeps.files = AList.insert (ascii "audio")
      [ascii "/m/audio.ko", ascii "/m/usb.ko"] (AList.insert (ascii "usb") [ascii "/m/usb.ko"] ∅) :=
      rfl
  rw [hardDeps, getDependencies, files] at member
  by_cases second : module = ascii "audio"
  · subst second
    exact ⟨rfl, mem_singleton.mp member⟩
  · rw [AList.lookup_insert_ne second] at member
    by_cases first : module = ascii "usb"
    · subst first
      cases member
    · rw [AList.lookup_insert_ne first] at member
      cases member

theorem modules_loaded_in_order_twoModules :
    ∃ st, [Request.loadListedModules true].foldlM (serve willing twoModules 5) State.start =
      some st ∧
      st.calls.length = 2 ∧ Ordered twoModules st.calls ∧ Once st.calls := by
  have acyclic : Acyclic (Edge twoModules) := by
    refine acyclic_of_rank List.length fun module dep edge => ?_
    cases edge with
    | hard member =>
      obtain ⟨rfl, rfl⟩ := hardDeps_twoModules member
      decide
    | pre member => cases member
    | post member => cases member
  obtain ⟨ordered, once⟩ := modules_loaded_in_order willing twoModules rfl 5
    [.loadListedModules true] _ rfl
  exact ⟨_, rfl, rfl, ordered, once rfl acyclic⟩

end Aosp.Modprobe
