import HermesRun.Lib.Runs
import HermesRun.TaskRegistry
import Mathlib.Data.List.Count

namespace HermesRun.Libraries

abbrev Path := String

structure File where
  opens : Bool
  createState : Bool
  getTaskLibName : Option String
  deriving DecidableEq, Repr

structure Env where
  libDirs : List String
  files : Path → Option File

def Env.nameOf (env : Env) (path : Path) : Option String := (env.files path).bind File.getTaskLibName

/-- What a library is as long as it stays in memory: its file and which loading of it this is. -/
structure Library where
  path : Path
  load : ℕ
  deriving DecidableEq, Repr

/-- `libs_` is split into its keys, in the registry, and its values; `refs` has one entry for each reference that
`dlopen` returned and `dlclose` has not taken back. `creator` is history: the library whose `create_state` made
a state. -/
structure State where
  registry : TaskRegistry
  infos : String → Option Library
  refs : List Path
  loads : Path → ℕ
  creator : TaskStateId → Option Library

inductive Label where
  | registerTaskLib (libName : String)
  | destroyTaskLib (libName : String)
  | createTaskState (libName stateName : String) (stateId : TaskStateId) (queueInfo : Option (List PriorityInfo))
  | destroyTaskState (stateId : TaskStateId)

def State.init (k : NodeId) : State := ⟨TaskRegistry.init k [], fun _ => none, [], fun _ => 0, fun _ => none⟩

variable (env : Env) (s : State)

def dlopen (path : Path) : State :=
  { s with
    refs := path :: s.refs
    loads := if path ∈ s.refs then s.loads else Function.update s.loads path (s.loads path + 1) }

/-- The destructor of `TaskLibInfo` calls it, also on the early returns. -/
def dlclose (path : Path) : State := { s with refs := s.refs.erase path }

def libPath (libDir libName : String) : Option Path :=
  if (env.files (libDir ++ "/" ++ libName ++ ".so")).isSome then some (libDir ++ "/" ++ libName ++ ".so")
  else if (env.files (libDir ++ "/lib" ++ libName ++ ".so")).isSome then some (libDir ++ "/lib" ++ libName ++ ".so")
  else none

/-- `libs_.emplace`: with the key in the map it destroys the `TaskLibInfo` that was moved in. -/
def emplaceLib (name : String) (path : Path) : State :=
  if name ∈ s.registry.libs then dlclose s path
  else { s with
    registry := s.registry.registerTaskLib name
    infos := Function.update s.infos name (some ⟨path, s.loads path⟩) }

def loadLib (path : Path) : Bool × State :=
  match env.files path with
  | none => (false, s)
  | some file =>
    if ¬file.opens then (false, s)
    else if ¬file.createState then (false, dlclose (dlopen s path) path)
    else match file.getTaskLibName with
      | none => (false, dlclose (dlopen s path) path)
      | some name => (true, emplaceLib (dlopen s path) name path)

def registerTaskLib (libName : String) : List String → Bool × State
  | [] => (false, s)
  | libDir :: libDirs => match libPath env libDir libName with
    | some path => loadLib env s path
    | none => registerTaskLib libName libDirs

def destroyTaskLib (libName : String) : State :=
  match s.infos libName with
  | none => s
  | some lib => dlclose { s with
      registry := s.registry.destroyTaskLib libName
      infos := Function.update s.infos libName none } lib.path

def createTaskState (libName stateName : String) (stateId : TaskStateId) (queueInfo : Option (List PriorityInfo)) :
    State :=
  { s with
    registry := (s.registry.createTaskState libName stateName stateId queueInfo).2
    creator := if s.registry.Instantiates libName stateId then
        Function.update s.creator stateId (s.infos libName) else s.creator }

def step : Label → Option State
  | .registerTaskLib libName => some (registerTaskLib env s libName env.libDirs).2
  | .destroyTaskLib libName => some (destroyTaskLib s libName)
  | .createTaskState libName stateName stateId queueInfo =>
    some (createTaskState s libName stateName stateId queueInfo)
  | .destroyTaskState stateId => some { s with registry := s.registry.destroyTaskState stateId }

structure NoUnloaded : Prop where
  refs : ∀ name, s.refs.countP (fun path => env.nameOf path == some name) = if name ∈ s.registry.libs then 1 else 0
  states : ∀ id, s.registry.taskStates id ≠ none → ∃ name lib, name ∈ s.registry.libs ∧ s.infos name = some lib ∧
    s.creator id = some lib

def KeepsStates : Label → Prop
  | .destroyTaskLib libName => ∀ id lib, s.registry.taskStates id ≠ none → s.infos libName = some lib →
      s.creator id ≠ some lib
  | _ => True

structure Inv : Prop where
  refs : ∀ name, s.refs.countP (fun path => env.nameOf path == some name) = if name ∈ s.registry.libs then 1 else 0
  infos : ∀ name, name ∈ s.registry.libs ↔ (s.infos name).isSome
  named : ∀ name lib, s.infos name = some lib → env.nameOf lib.path = some name ∧ lib.path ∈ s.refs

variable {env s}

inductive Registered (env : Env) (s : State) : State → Prop
  | undone (loads : Path → ℕ) : Registered env s { s with loads := loads }
  | loaded (name : String) (path : Path) (loads : Path → ℕ) (hnew : name ∉ s.registry.libs)
      (hname : env.nameOf path = some name) : Registered env s ⟨s.registry.registerTaskLib name,
        Function.update s.infos name (some ⟨path, loads path⟩), path :: s.refs, loads, s.creator⟩

theorem dlclose_dlopen (path : Path) : dlclose (dlopen s path) path = { s with loads := (dlopen s path).loads } := by
  simp [dlclose, dlopen]

theorem loadLib_registered (path : Path) : Registered env s (loadLib env s path).2 := by
  unfold loadLib
  cases hfile : env.files path with
  | none => exact .undone s.loads
  | some file =>
    dsimp only
    by_cases hopens : file.opens = true
    · rw [if_neg (not_not_intro hopens)]
      by_cases hcreate : file.createState = true
      · rw [if_neg (not_not_intro hcreate)]
        cases hname : file.getTaskLibName with
        | none =>
          dsimp only
          rw [dlclose_dlopen]
          exact .undone _
        | some name =>
          have hnameOf : env.nameOf path = some name := by rw [Env.nameOf, hfile, Option.bind_some, hname]
          dsimp only [emplaceLib]
          split_ifs with hmem
          · rw [dlclose_dlopen]
            exact .undone _
          · exact .loaded name path _ hmem hnameOf
      · rw [if_pos hcreate, dlclose_dlopen]
        exact .undone _
    · rw [if_pos hopens]
      exact .undone s.loads

theorem registerTaskLib_registered (libName : String) (libDirs : List String) :
    Registered env s (registerTaskLib env s libName libDirs).2 := by
  induction libDirs with
  | nil => exact .undone s.loads
  | cons libDir libDirs ih =>
    simp only [registerTaskLib]
    split
    · exact loadLib_registered _
    · exact ih

theorem inv_init (k : NodeId) : Inv env (State.init k) where
  refs _ := by simp [State.init, TaskRegistry.init]
  infos _ := by simp [State.init, TaskRegistry.init]
  named _ _ h := by cases h

theorem registered_inv {t : State} (hs : Inv env s) (h : Registered env s t) : Inv env t := by
  cases h with
  | undone loads => exact ⟨hs.refs, hs.infos, hs.named⟩
  | loaded name path loads hnew hname =>
    refine ⟨?_, ?_, ?_⟩
    · intro name'
      dsimp only [TaskRegistry.registerTaskLib]
      rw [List.countP_cons, hs.refs, hname]
      by_cases heq : name' = name
      · subst heq
        simp [hnew]
      · have hne : ¬name = name' := fun h => heq h.symm
        simp [heq, hne]
    · intro name'
      dsimp only [TaskRegistry.registerTaskLib]
      by_cases heq : name' = name
      · subst heq
        simp
      · rw [Function.update_of_ne heq, ← hs.infos, List.mem_cons]
        simp [heq]
    · intro name' lib hlib
      dsimp only at hlib
      by_cases heq : name' = name
      · subst heq
        rw [Function.update_self, Option.some.injEq] at hlib
        subst hlib
        exact ⟨hname, List.mem_cons_self⟩
      · rw [Function.update_of_ne heq] at hlib
        obtain ⟨hname', hmem⟩ := hs.named name' lib hlib
        exact ⟨hname', List.mem_cons_of_mem _ hmem⟩

theorem destroyTaskLib_inv (hs : Inv env s) (libName : String) : Inv env (destroyTaskLib s libName) := by
  unfold destroyTaskLib
  cases hinfo : s.infos libName with
  | none => exact hs
  | some lib =>
    obtain ⟨hname, hmem⟩ := hs.named libName lib hinfo
    have hlib : libName ∈ s.registry.libs := (hs.infos libName).mpr (by rw [hinfo]; rfl)
    refine ⟨?_, ?_, ?_⟩
    · intro name
      dsimp only [dlclose, TaskRegistry.destroyTaskLib]
      rw [List.countP_erase, hs.refs, hname]
      by_cases heq : name = libName
      · subst heq
        simp [hlib, hmem]
      · have hne : ¬libName = name := fun h => heq h.symm
        simp [heq, hne]
    · intro name
      dsimp only [dlclose, TaskRegistry.destroyTaskLib]
      by_cases heq : name = libName
      · subst heq
        simp
      · rw [Function.update_of_ne heq, ← hs.infos]
        simp [heq]
    · intro name other hother
      dsimp only [dlclose] at hother ⊢
      by_cases heq : name = libName
      · subst heq
        rw [Function.update_self] at hother
        cases hother
      · rw [Function.update_of_ne heq] at hother
        obtain ⟨hname', hmem'⟩ := hs.named name other hother
        refine ⟨hname', (List.mem_erase_of_ne ?_).mpr hmem'⟩
        intro hpath
        rw [hpath, hname, Option.some.injEq] at hname'
        exact heq hname'.symm

theorem createTaskState_libs (r : TaskRegistry) (libName name : String) (id : TaskStateId)
    (info : Option (List PriorityInfo)) : (r.createTaskState libName name id info).2.libs = r.libs := by
  by_cases h : r.Instantiates libName id
  · rw [TaskRegistry.createTaskState_new h]
  · rw [TaskRegistry.createTaskState_old h]

theorem destroyTaskState_libs (r : TaskRegistry) (id : TaskStateId) : (r.destroyTaskState id).libs = r.libs := by
  unfold TaskRegistry.destroyTaskState
  split <;> rfl

theorem step_inv {t : State} {l : Label} (hs : Inv env s) (h : step env s l = some t) : Inv env t := by
  cases l with
  | registerTaskLib libName =>
    cases h
    exact registered_inv hs (registerTaskLib_registered libName env.libDirs)
  | destroyTaskLib libName =>
    cases h
    exact destroyTaskLib_inv hs libName
  | createTaskState libName stateName stateId queueInfo =>
    cases h
    have hlibs := createTaskState_libs s.registry libName stateName stateId queueInfo
    exact ⟨fun name => by rw [createTaskState, hlibs]; exact hs.refs name,
      fun name => by rw [createTaskState, hlibs]; exact hs.infos name, hs.named⟩
  | destroyTaskState stateId =>
    cases h
    have hlibs := destroyTaskState_libs s.registry stateId
    exact ⟨fun name => by rw [hlibs]; exact hs.refs name, fun name => by rw [hlibs]; exact hs.infos name, hs.named⟩

theorem infos_inj (hs : Inv env s) {name name' : String} {lib : Library} (h : s.infos name = some lib)
    (h' : s.infos name' = some lib) : name = name' := by
  have hname := (hs.named name lib h).1
  rw [(hs.named name' lib h').1, Option.some.injEq] at hname
  exact hname.symm

theorem noUnloaded_init (k : NodeId) : NoUnloaded env (State.init k) where
  refs := (inv_init k).refs
  states _ h := absurd rfl h

theorem registered_noUnloaded {t : State} (hs : Inv env s) (hn : NoUnloaded env s) (h : Registered env s t) :
    NoUnloaded env t := by
  refine ⟨(registered_inv hs h).refs, ?_⟩
  intro id hid
  cases h with
  | undone loads => exact hn.states id hid
  | loaded name path loads hnew hname =>
    obtain ⟨name', lib, hmem, hinfo, hcreator⟩ := hn.states id hid
    have hne : name' ≠ name := fun heq => hnew (heq ▸ hmem)
    exact ⟨name', lib, List.mem_cons_of_mem _ hmem, (Function.update_of_ne hne _ _).trans hinfo, hcreator⟩

theorem destroyTaskLib_noUnloaded (hs : Inv env s) (hn : NoUnloaded env s) (libName : String) :
    NoUnloaded env (destroyTaskLib s libName) ↔ KeepsStates s (.destroyTaskLib libName) := by
  have hrefs := (destroyTaskLib_inv hs libName).refs
  cases hinfo : s.infos libName with
  | none =>
    have hsame : destroyTaskLib s libName = s := by simp only [destroyTaskLib, hinfo]
    rw [hsame]
    refine iff_of_true hn ?_
    intro id lib _ hlib
    rw [hinfo] at hlib
    cases hlib
  | some lib =>
    have hd : destroyTaskLib s libName = dlclose { s with
        registry := s.registry.destroyTaskLib libName
        infos := Function.update s.infos libName none } lib.path := by simp only [destroyTaskLib, hinfo]
    rw [hd] at hrefs ⊢
    constructor
    · intro hn' id lib' hid hlib' hcreator
      rw [hinfo, Option.some.injEq] at hlib'
      subst hlib'
      obtain ⟨name, lib', hmem, hlib', hcreator'⟩ := hn'.states id hid
      dsimp only [dlclose] at hlib' hcreator'
      rw [hcreator, Option.some.injEq] at hcreator'
      subst hcreator'
      by_cases heq : name = libName
      · rw [heq, Function.update_self] at hlib'
        cases hlib'
      · rw [Function.update_of_ne heq] at hlib'
        exact heq (infos_inj hs hlib' hinfo)
    · intro hkeeps
      refine ⟨hrefs, ?_⟩
      intro id hid
      obtain ⟨name, lib', hmem, hlib', hcreator⟩ := hn.states id hid
      have hne : name ≠ libName := by
        rintro rfl
        exact hkeeps id lib' hid hlib' hcreator
      refine ⟨name, lib', ?_, ?_, hcreator⟩
      · dsimp only [dlclose, TaskRegistry.destroyTaskLib]
        rw [List.mem_filter]
        exact ⟨hmem, by simpa using hne⟩
      · dsimp only [dlclose]
        rw [Function.update_of_ne hne]
        exact hlib'

theorem createTaskState_noUnloaded (hs : Inv env s) (hn : NoUnloaded env s) (libName stateName : String)
    (stateId : TaskStateId) (queueInfo : Option (List PriorityInfo)) :
    NoUnloaded env (createTaskState s libName stateName stateId queueInfo) := by
  have hlibs := createTaskState_libs s.registry libName stateName stateId queueInfo
  refine ⟨?_, ?_⟩
  · intro name
    rw [createTaskState, hlibs]
    exact hs.refs name
  · intro id hid
    simp only [createTaskState, hlibs] at hid ⊢
    by_cases hnew : s.registry.Instantiates libName stateId
    · rw [if_pos hnew]
      by_cases heq : id = stateId
      · obtain ⟨lib, hlib⟩ := Option.isSome_iff_exists.mp ((hs.infos libName).mp hnew.2.1)
        exact ⟨libName, lib, hnew.2.1, hlib, by rw [heq, Function.update_self, hlib]⟩
      · rw [TaskRegistry.createTaskState_new hnew] at hid
        rw [Function.update_of_ne heq]
        dsimp only at hid
        rw [Function.update_of_ne heq] at hid
        exact hn.states id hid
    · rw [if_neg hnew]
      rw [TaskRegistry.createTaskState_old hnew] at hid
      exact hn.states id hid

theorem destroyTaskState_noUnloaded (hs : Inv env s) (hn : NoUnloaded env s) (stateId : TaskStateId) :
    NoUnloaded env { s with registry := s.registry.destroyTaskState stateId } := by
  have hlibs := destroyTaskState_libs s.registry stateId
  refine ⟨?_, ?_⟩
  · intro name
    rw [hlibs]
    exact hs.refs name
  · intro id hid
    simp only [hlibs] at hid ⊢
    apply hn.states id
    intro hnone
    apply hid
    unfold TaskRegistry.destroyTaskState
    split
    · exact hnone
    · by_cases heq : id = stateId
      · rw [heq]
        exact Function.update_self ..
      · dsimp only
        rw [Function.update_of_ne heq]
        exact hnone

theorem step_noUnloaded {t : State} {l : Label} (hs : Inv env s) (hn : NoUnloaded env s) (h : step env s l = some t) :
    NoUnloaded env t ↔ KeepsStates s l := by
  cases l with
  | registerTaskLib libName =>
    cases h
    exact iff_of_true (registered_noUnloaded hs hn (registerTaskLib_registered libName env.libDirs)) trivial
  | destroyTaskLib libName =>
    cases h
    exact destroyTaskLib_noUnloaded hs hn libName
  | createTaskState libName stateName stateId queueInfo =>
    cases h
    exact iff_of_true (createTaskState_noUnloaded hs hn libName stateName stateId queueInfo) trivial
  | destroyTaskState stateId =>
    cases h
    exact iff_of_true (destroyTaskState_noUnloaded hs hn stateId) trivial

theorem along_noUnloaded_iff (env : Env) (k : NodeId) (labels : List Label) :
    Runs.Along (step env) (fun _ _ t => NoUnloaded env t) (State.init k) labels ↔
      Runs.Along (step env) (fun s l _ => KeepsStates s l) (State.init k) labels :=
  Runs.along_iff (J := Inv env) (fun _ _ _ hs h => step_inv hs h) (fun _ _ _ hs hn h => step_noUnloaded hs hn h)
    labels (inv_init k) (noUnloaded_init k)

section SmallMessage

def oneLib : Env :=
  ⟨["/lib"], fun path => if path = "/lib/libsmall_message.so" then some ⟨true, true, some "small_message"⟩ else none⟩

def unloadingRun : List Label :=
  [.registerTaskLib "small_message", .createTaskState "small_message" "ipc_test" ⟨1, 8⟩ none,
    .destroyTaskLib "small_message"]

theorem not_noUnloaded_unloadingRun : ∃ s, Runs.run (step oneLib) (State.init 1) unloadingRun = some s ∧
    s.registry.taskStates ⟨1, 8⟩ ≠ none ∧ s.registry.libs = [] ∧ s.refs = [] ∧ ¬NoUnloaded oneLib s := by
  obtain ⟨s, hs⟩ : ∃ s, Runs.run (step oneLib) (State.init 1) unloadingRun = some s := ⟨_, rfl⟩
  have hlibs : s.registry.libs = [] := by
    cases hs
    decide
  have hstate : s.registry.taskStates ⟨1, 8⟩ ≠ none := by
    cases hs
    decide
  have hrefs : s.refs = [] := by
    cases hs
    decide
  refine ⟨s, hs, hstate, hlibs, hrefs, ?_⟩
  intro hn
  obtain ⟨name, lib, hmem, -⟩ := hn.states ⟨1, 8⟩ hstate
  rw [hlibs] at hmem
  cases hmem

end SmallMessage

end HermesRun.Libraries
