import Mathlib.Data.Finset.Card
import AppManifest.Host.Local
import AppManifest.Proofs.Entries
/-!
# What an environment does to variables

An environment is made from a list of changes, and then variables are set and unset one by one. All
of this is one history of writes (`Environment.Write.entry`), and the environment holds what the
history wrote (`Environment.changes_foldl_write`), so for each variable only the last write counts.

A process gets the variables of its parent with the changes applied to them, in whatever order the
environment is gone through. One change concerns one variable (`Environment.get?_applyChange`), and
no variable is changed twice, so the order does not matter (`Environment.get?_apply`). `Overlays`
says what a variable is after that. These are the variables that a command hands to the operating
system, whatever system that is (`SystemHost.run_eq`). On the system with a shell a program starts
in a session, and there it sees just these variables (`LocalHost.environment_of_child`).
-/

namespace AppManifest

/-- The variables of a process are those of its parent but for a history of writes: a variable that
was set last has that value, one that was unset last has none, and one that was never written is as
it is for the parent. -/
structure Overlays (history : List (String × Option String)) (parent child : Entries String) :
    Prop where
  set : ∀ key value, IsLast (·.1 = key) history (key, some value) → child.get? key = some value
  unset : ∀ key, IsLast (·.1 = key) history (key, none) → child.get? key = none
  untouched : ∀ key, key ∉ Entries.keys history → child.get? key = parent.get? key

namespace Environment

/-- Something that is done to a variable of an environment. -/
inductive Write where
  | set (key value : String)
  | unset (key : String)

/-- The variable that is written, and what is kept of it. -/
def Write.entry : Write → String × Option String
  | .set key value => (key, some value)
  | .unset key => (key, none)

/-- The environment after a write. -/
def write (environment : Environment) : Write → Environment
  | .set key value => environment.set key value
  | .unset key => environment.unset key

/-! ### What is held -/

theorem changes_write (environment : Environment) (next : Write) :
    (environment.write next).changes =
      environment.changes.insert next.entry.1 next.entry.2 := by
  cases next <;> rfl

/-- **An environment holds what its whole history wrote.** A variable is as its last write has left
it, and it is listed once. -/
theorem changes_foldl_write (initial : List (String × Option String)) (writes : List Write) :
    (writes.foldl write (ofList initial)).changes =
      Entries.ofList (initial ++ writes.map Write.entry) := by
  induction writes using List.reverseRecOn with
  | nil => rw [List.map_nil, List.append_nil]; rfl
  | append_singleton writes next ih =>
    rw [List.foldl_concat, changes_write, ih, List.map_append, ← List.append_assoc]
    exact (Entries.ofList_concat ..).symm

variable {environment : Environment} {history : List (String × Option String)}

theorem get?_eq_some_iff_isLast (h : environment.changes = Entries.ofList history)
    {key value : String} :
    environment.get? key = some value ↔ IsLast (·.1 = key) history (key, some value) := by
  rw [get?, Option.join_eq_some_iff, h, Entries.get?_ofList_iff_isLast]

theorem contains_iff_mem_keys (h : environment.changes = Entries.ofList history) {key : String} :
    environment.contains key = true ↔ key ∈ Entries.keys history := by
  rw [contains, h, Entries.contains_iff, Entries.keys_ofList, List.mem_eraseDups]

theorem size_eq_card (h : environment.changes = Entries.ofList history) :
    environment.size = (Entries.keys history).toFinset.card := by
  have hkeys : environment.changes.keys = (Entries.keys history).eraseDups := by
    rw [h, Entries.keys_ofList]
  have hset : environment.changes.keys.toFinset = (Entries.keys history).toFinset := by
    ext key
    rw [hkeys, List.mem_toFinset, List.mem_eraseDups, List.mem_toFinset]
  have distinct : environment.changes.keys.Nodup := h ▸ Entries.distinctKeys_ofList history
  rw [← hset, List.toFinset_card_of_nodup distinct, Entries.keys, List.length_map, size]

/-! ### What is passed on -/

/-- A change concerns its own variable and no other. -/
theorem get?_applyChange (bindings : Entries String) (change : String × Option String)
    (key : String) : (applyChange bindings change).get? key =
      if change.1 = key then change.2 else bindings.get? key := by
  obtain ⟨name, value?⟩ := change
  cases value? with
  | none => exact Entries.get?_erase bindings name key
  | some value => exact Entries.get?_insert bindings name key value

theorem get?_foldl_applyChange (changes : List (String × Option String))
    (bindings : Entries String) (key : String) : (changes.foldl applyChange bindings).get? key =
      (Entries.get? changes.reverse key).getD (bindings.get? key) := by
  induction changes using List.reverseRecOn with
  | nil => rfl
  | append_singleton changes change ih =>
    obtain ⟨name, value?⟩ := change
    rw [List.foldl_concat, get?_applyChange, ih, List.reverse_concat, Entries.get?]
    split <;> rfl

/-- **No variable is changed twice, so each is as its one change leaves it.** What the parent has is
only looked at for variables that are not changed. -/
theorem get?_apply (distinct : environment.changes.DistinctKeys) (parent : Entries String)
    (key : String) : (environment.apply parent).get? key =
      (environment.changes.get? key).getD (parent.get? key) := by
  rw [apply, get?_foldl_applyChange, Entries.get?_reverse distinct]

/-- **The order in which an environment is gone through does not matter.** The changes of an
environment are about distinct variables, so none of them can hide another. -/
theorem overlays_apply (h : environment.changes.Perm (Entries.ofList history))
    (parent : Entries String) : Overlays history parent (environment.apply parent) := by
  have hstored := Entries.distinctKeys_ofList history
  have distinct : environment.changes.DistinctKeys := (h.map Prod.fst).nodup_iff.2 hstored
  have hget (key : String) : (environment.apply parent).get? key =
      ((Entries.ofList history).get? key).getD (parent.get? key) := by
    rw [get?_apply distinct, Entries.get?_perm distinct h]
  refine ⟨fun key value hlast ↦ ?_, fun key hlast ↦ ?_, fun key hnever ↦ ?_⟩
  · rw [hget, Entries.get?_ofList_iff_isLast.2 hlast]
    rfl
  · rw [hget, Entries.get?_ofList_iff_isLast.2 hlast]
    rfl
  · rw [hget, Entries.get?_ofList_eq_none_iff.2 hnever]
    rfl

end Environment

/-! ### What a command runs in -/

/-- The process that a command asks for, on a host with some variables. -/
def Command.process (command : Command) (bindings : Entries String) : Process :=
  ⟨command.program, command.args, command.directory, command.environment.apply bindings⟩

/-- **A command is handed to the operating system as one process**, and its result is what the
system answers. The host itself keeps its variables, and its files are what the system leaves. -/
theorem SystemHost.run_eq {σ : Type} (system : OperatingSystem σ) (host : SystemHost σ)
    (command : Command) : (run system command).run.run host =
      let (output?, files) := (system.run (command.process host.bindings)).run host.files
      (match output? with
        | some output => .ok output.captured
        | none => .error (PluginFailure.failed ("failed to run " ++ command.program)),
        { host with files }) := by
  have hrun : (run system command).run.run host =
      (match ((system.run (command.process host.bindings)).run host.files).1 with
        | some output => (pure output.captured : HostAction (SystemHost σ) CommandOutput)
        | none => throw (PluginFailure.failed ("failed to run " ++ command.program))).run.run
          { host with files := ((system.run (command.process host.bindings)).run host.files).2 } :=
    rfl
  rw [hrun]
  rcases (system.run (command.process host.bindings)).run host.files with ⟨- | output, files⟩
  · rfl
  · rfl

namespace LocalHost

/-- The program that a command names and the session that it starts in, if there is such a program
and the directory that it is to run in. -/
def child? (host : LocalHost) (command : Command) :
    Option (Host.Shell.Program × Host.Shell.Session) :=
  Host.start? host.files (command.process host.bindings)

/-- A command with a session to start in leaves what its program leaves there. -/
theorem run_of_child {host : LocalHost} {command : Command} {program : Host.Shell.Program}
    {session : Host.Shell.Session} (h : host.child? command = some (program, session)) :
    (run command).run.run host = (.ok (Host.output (program command.args session)).captured,
      { host with files := (program command.args session).files }) := by
  have hstart : Host.start? host.files (command.process host.bindings) =
      some (program, session) := h
  have hanswer : (Host.shellSystem.run (command.process host.bindings)).run host.files =
      (some (Host.output (program command.args session)),
        (program command.args session).files) := by
    simp only [Host.shellSystem, StateT.run, hstart]
    rfl
  rw [run, SystemHost.run_eq, hanswer]

/-- Programs see all variables that a session starts with. -/
theorem environment_session (files : Host.Node) (place : Host.Place) (process : Process) :
    (Host.session files place process).environment = process.bindings := by
  refine List.filter_eq_self.2 fun entry hmem ↦ ?_
  exact List.contains_iff_mem.2 (Entries.mem_keys_of_mem hmem)

/-- The variables of a command are those that its environment makes of the variables of the host. -/
theorem environment_of_child {host : LocalHost} {command : Command} {program : Host.Shell.Program}
    {session : Host.Shell.Session} (h : host.child? command = some (program, session)) :
    session.environment = command.environment.apply host.bindings := by
  obtain ⟨place, -, hprogram⟩ := Option.bind_eq_some_iff.1 h
  obtain ⟨found, -, heq⟩ := Option.map_eq_some_iff.1 hprogram
  obtain ⟨-, rfl⟩ := Prod.mk.inj heq
  exact environment_session ..

end LocalHost

/-! ### Only the last write counts -/

namespace Environment

/-- **Only the last write to a variable counts.** An environment is made from a list of changes, and
its variables are written one by one after that. A variable is held with the value that was written
last, the environment contains the variables that were written at all, and its size is the number
of them. A process has the value that was written last, no value if the variable was unset last, and
the value of its parent if it was never written, in whatever order the environment is gone
through. On every operating system, a command with this environment is run as one process with such
variables, the answer of the system is its result, and a system that cannot run the process makes it
fail; on the system with a shell, the session that the program starts in has these variables. -/
theorem last_write_counts (initial : List (String × Option String)) (writes : List Write) :
    let environment := writes.foldl write (ofList initial)
    let history := initial ++ writes.map Write.entry
    (∀ key value,
      environment.get? key = some value ↔ IsLast (·.1 = key) history (key, some value)) ∧
    (∀ key, environment.contains key = true ↔ key ∈ Entries.keys history) ∧
    environment.size = (Entries.keys history).toFinset.card ∧
    ∀ iterated : Environment, iterated.changes.Perm environment.changes →
      (∀ parent, Overlays history parent (iterated.apply parent)) ∧
      (∀ {σ : Type} (system : OperatingSystem σ) (host : SystemHost σ) (command : Command),
        command.environment = iterated → ∃ bindings, Overlays history host.bindings bindings ∧
          (SystemHost.run system command).run.run host =
            let process : Process := ⟨command.program, command.args, command.directory, bindings⟩
            let (output?, files) := (system.run process).run host.files
            (match output? with
              | some output => .ok output.captured
              | none => .error (PluginFailure.failed ("failed to run " ++ command.program)),
              { host with files })) ∧
      ∀ (host : LocalHost) (command : Command) (program : Host.Shell.Program)
        (session : Host.Shell.Session), command.environment = iterated →
        host.child? command = some (program, session) →
        (LocalHost.run command).run.run host =
          (.ok (Host.output (program command.args session)).captured,
            { host with files := (program command.args session).files }) ∧
        Overlays history host.bindings session.environment := by
  intro environment history
  have hstored : environment.changes = Entries.ofList history :=
    changes_foldl_write initial writes
  refine ⟨fun key value ↦ get?_eq_some_iff_isLast hstored, fun key ↦ contains_iff_mem_keys hstored,
    size_eq_card hstored, fun iterated hperm ↦ ?_⟩
  have hoverlays (parent : Entries String) : Overlays history parent (iterated.apply parent) :=
    overlays_apply (hstored ▸ hperm) parent
  refine ⟨hoverlays, fun system host command henvironment ↦ ?_,
    fun host command program session henvironment hchild ↦ ?_⟩
  · exact ⟨command.environment.apply host.bindings, henvironment ▸ hoverlays host.bindings,
      SystemHost.run_eq system host command⟩
  · refine ⟨LocalHost.run_of_child hchild, ?_⟩
    rw [LocalHost.environment_of_child hchild, henvironment]
    exact hoverlays host.bindings

/-- The variable `A` is listed twice and set to `2` after that, `B` is unset, and `C` is unset at
the end: a host that has `A`, `C` and `D` passes on `A` with the new value, and `D`. -/
theorem listed_set_and_unset :
    let environment := [Write.set "A" "2", .unset "C"].foldl write
      (ofList [("A", some "1"), ("B", none), ("A", none)])
    environment.get? "A" = some "2" ∧ environment.contains "B" = true ∧ environment.size = 3 ∧
    let host : LocalHost := ⟨.empty, [("A", "0"), ("C", "x"), ("D", "y")]⟩
    let command := (Command.new "printenv").withEnvironment ⟨environment.changes.reverse⟩
    ∃ program session, host.child? command = some (program, session) ∧
      session.environment.get? "A" = some "2" ∧ session.environment.get? "C" = none ∧
      session.environment.get? "D" = some "y" := by
  intro environment
  obtain ⟨held, contained, size, passedOn⟩ := last_write_counts
    [("A", some "1"), ("B", none), ("A", none)] [.set "A" "2", .unset "C"]
  let history := [("A", some "1"), ("B", none), ("A", none), ("A", some "2"), ("C", none)]
  have hA : IsLast (·.1 = "A") history ("A", some "2") :=
    ⟨[("A", some "1"), ("B", none), ("A", none)], [("C", none)], rfl, rfl, by decide⟩
  have hC : IsLast (·.1 = "C") history ("C", none) :=
    ⟨[("A", some "1"), ("B", none), ("A", none), ("A", some "2")], [], rfl, rfl, by decide⟩
  refine ⟨(held "A" "2").2 hA, (contained "B").2 (by decide), size, ?_⟩
  intro host command
  have hprogram : Host.program? (command.environment.apply host.bindings) "printenv" =
      some Host.Shell.Program.printenv := by
    have hslash : "printenv".contains '/' = false := by simp
    rw [Host.program?, hslash]
    rfl
  obtain ⟨session, hchild⟩ : ∃ session,
      host.child? command = some (Host.Shell.Program.printenv, session) :=
    ⟨_, congrArg (Option.map _) hprogram⟩
  obtain ⟨-, -, sessions⟩ := passedOn ⟨environment.changes.reverse⟩ (List.reverse_perm _)
  obtain ⟨-, overlays⟩ := sessions host command _ session rfl hchild
  exact ⟨_, session, hchild, overlays.set "A" "2" hA, overlays.unset "C" hC,
    overlays.untouched "D" (by decide)⟩

end Environment

end AppManifest
