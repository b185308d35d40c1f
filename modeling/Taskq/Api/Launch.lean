import Taskq.Api.RunHistory

/-!
# Taskq.Api.Launch

What the machine is asked to launch, whatever the requests do to each other.

A command is checked once, when its task is created. It is stored, read by a later
`trigger_run`, handed to the background body, and split there, with other requests between
any two of these. What was checked still holds where it matters (`Validated`): an argument
vector is made of the words of an accepted command, so that no quote, no escape and no
character a shell would act on is ever part of one.
-/

namespace Taskq.Interleaving

open Transaction TaskRepository Transition

/-! ### Argument vectors -/

/-- A vector the machine may be asked for: words without whitespace or blacklisted characters,
no longer in all than a command may be. -/
structure Harmless (argv : List (List Char)) : Prop where
  words : ∀ w ∈ argv, w ≠ []
  characters : ∀ w ∈ argv, ∀ c ∈ w, ¬ Shlex.IsSpace c ∧ c ∉ injectionBlacklist
  length : argv.flatten.length ≤ maxFieldLength

/-- The body that `command` would have come in. -/
def bodyOf {command : String} (h : AcceptedText command) : TaskCreate where
  name := command
  command := command
  name_accepted := h
  command_accepted := h

/-- An accepted command splits into its words, and they are harmless. -/
theorem split_accepted {command : String} (h : AcceptedText command) :
    Shlex.split command.toList = .ok (Shlex.words command.toList) ∧
      Harmless (Shlex.words command.toList) := by
  refine ⟨Shlex.split_eq_words (bodyOf h).command_plain, ?_⟩
  constructor
  case words => exact fun w hw => (Shlex.of_mem_words hw).1
  case characters =>
    intro w hw c hc
    obtain ⟨hmem, hspace⟩ := (Shlex.of_mem_words hw).2 c hc
    exact ⟨hspace, h.2.2 c hmem⟩
  case length =>
    rw [Shlex.words_flatten]
    refine (List.length_filter_le _ _).trans ?_
    rw [String.length_toList]
    exact h.2.1

/-! ### Where commands come from -/

/-- The command that a request has read. -/
def Pc.command? : Pc → Option String
  | .found _ command => some command
  | .running _ command _ => some command
  | _ => none

/-- A task after a transaction was there before, or is the one created. -/
theorem mem_tasks_advance {d : Draw} {pc : Pc} {db : Database} {t : Task}
    (h : t ∈ (advance d pc db).2.tasks) :
    t ∈ db.tasks ∨ ∃ body : TaskCreate, t = newTask d.id d.now body.name body.command := by
  by_cases hpc : pc = .finished
  · subst hpc
    exact Or.inl h
  · have htransacts := advance_transacts d hpc db
    generalize advance d pc db = out at h htransacts
    cases htransacts with
    | @create body db' htasks =>
        rw [htasks] at h
        rcases List.mem_cons.mp h with rfl | h
        · exact Or.inr ⟨body, rfl⟩
        · exact Or.inl h
    | insert _ htasks => exact Or.inl (htasks ▸ h)
    | complete htasks => exact Or.inl (htasks ▸ h)
    | deleteRow => exact Or.inl (List.mem_of_mem_filter h)
    | _ => exact Or.inl h

/-- A request has a command from a task, or had it before. -/
theorem command_advance {d : Draw} {pc : Pc} {db : Database} {command : String}
    (h : (advance d pc db).1.command? = some command) :
    pc.command? = some command ∨ ∃ t ∈ db.tasks, t.command = command := by
  cases pc with
  | arrived r =>
      cases r with
      | createTask body =>
          have hpc : Pc.arrived (.createTask body) ≠ .finished := nofun
          have htransacts := advance_transacts d hpc db
          generalize advance d (.arrived (.createTask body)) db = out at h htransacts
          cases htransacts <;> cases h
      | triggerRun taskId =>
          rcases get_cases taskId db with ⟨t, ht, -, hget⟩ | ⟨-, hget⟩
          · simp only [advance, hget] at h
            exact Or.inr ⟨t, ht, Option.some.inj h⟩
          · simp only [advance, hget] at h
            cases h
      | deleteTask taskId => cases h
  | inserted id => cases h
  | found taskId command' =>
      have hpc : Pc.found taskId command' ≠ .finished := by
        intro hfinished
        cases hfinished
      have htransacts := advance_transacts d hpc db
      generalize advance d (.found taskId command') db = out at h htransacts
      cases htransacts with
      | insert => exact Or.inl h
      | clash => cases h
  | running taskId command' runId => cases h
  | rowDeleted taskId => cases h
  | finished => cases h

/-! ### Whole runs -/

/-- Every text that is stored, and every command that a request has read, was accepted. -/
structure Validated (s : System) : Prop where
  tasks : ∀ t ∈ s.database.tasks, AcceptedText t.name ∧ AcceptedText t.command
  requests : ∀ pc ∈ s.requests, ∀ command, pc.command? = some command → AcceptedText command

theorem Validated.step {s s' : System} {a : Event} (h : Validated s) (hstep : s.next a = some s') :
    Validated s' := by
  cases a with
  | arrive r =>
      cases hstep
      constructor
      case tasks => exact h.tasks
      case requests =>
        intro pc hpc command hcommand
        rcases List.mem_append.mp hpc with hpc | hpc
        · exact h.requests pc hpc command hcommand
        · obtain rfl := List.mem_singleton.mp hpc
          cases hcommand
  | turn i d =>
      obtain ⟨pc, hpc, -, rfl⟩ := next_turn hstep
      constructor
      case tasks =>
        intro t ht
        rcases mem_tasks_advance ht with hold | ⟨body, rfl⟩
        · exact h.tasks t hold
        · exact ⟨body.name_accepted, body.command_accepted⟩
      case requests =>
        intro pc' hpc' command hcommand
        rcases List.mem_or_eq_of_mem_set hpc' with hold | rfl
        · exact h.requests pc' hold command hcommand
        · rcases command_advance hcommand with hold | ⟨t, ht, rfl⟩
          · exact h.requests pc (List.mem_of_getElem? hpc) command hold
          · exact (h.tasks t ht).2

theorem validated_of_reachable {db : Database}
    (hdb : ∀ t ∈ db.tasks, AcceptedText t.name ∧ AcceptedText t.command) {s : System}
    (h : (interleavings db).Reachable s) : Validated s := by
  refine h.invariant (I := Validated) ?_ fun s a s' _ hs hstep => hs.step hstep
  intro s hs
  obtain rfl : s = _ := hs
  exact ⟨hdb, by simp⟩

/-- The same machine, but for what it launches. -/
def Draw.launching (d : Draw) (exec : List (List Char) → Except OSErrorKind Process) : Draw where
  id := d.id
  now := d.now
  host := { d.host with exec := exec }

/-- Two machines that launch this command's words alike run it alike. -/
theorem run_launching {d : Draw} {exec : List (List Char) → Except OSErrorKind Process}
    {command : String} (taskId : String) (haccepted : AcceptedText command)
    (hexec : ∀ argv, Harmless argv → exec argv = d.host.exec argv) :
    TaskRunner.run (d.launching exec).host taskId command =
      TaskRunner.run d.host taskId command := by
  obtain ⟨hsplit, hharmless⟩ := split_accepted haccepted
  have hspawn : TaskRunner.spawn (d.launching exec).host (Shlex.words command.toList) =
      TaskRunner.spawn d.host (Shlex.words command.toList) := by
    have hsame := hexec _ hharmless
    cases hwords : Shlex.words command.toList with
    | nil => rfl
    | cons program args =>
        rw [hwords] at hsame
        simp only [TaskRunner.spawn, Draw.launching, hsame]
  have hreport : TaskRunner.report (d.launching exec).host = TaskRunner.report d.host := by
    funext taskId command p
    rcases p with - | (⟨code, out, err⟩ | - | - | -) <;> rfl
  simp only [TaskRunner.run, hsplit, hspawn, hreport]

/-- **Only harmless vectors are launched.** In every state of every run of the service all stored
names and commands are as `TaskCreate` accepts them; and a machine that answers differently for
vectors with an empty word, or one with whitespace or a blacklisted character in it, cannot be told
from the one there is by anything that happens next. -/
theorem launches_harmless {db : Database}
    (hdb : ∀ t ∈ db.tasks, AcceptedText t.name ∧ AcceptedText t.command) {s : System}
    (h : (interleavings db).Reachable s) :
    (∀ t ∈ s.database.tasks, AcceptedText t.name ∧ AcceptedText t.command) ∧
      ∀ i d exec, (∀ argv, Harmless argv → exec argv = d.host.exec argv) →
        s.next (.turn i (d.launching exec)) = s.next (.turn i d) := by
  have hvalidated := validated_of_reachable hdb h
  refine ⟨hvalidated.tasks, fun i d exec hexec => ?_⟩
  have hadvance : ∀ pc ∈ s.requests,
      advance (d.launching exec) pc s.database = advance d pc s.database := by
    intro pc hpc
    cases pc with
    | running taskId command runId =>
        have haccepted := hvalidated.requests _ hpc command rfl
        simp only [advance, executeAndPersist, run_launching taskId haccepted hexec]
    | arrived r => cases r <;> rfl
    | _ => rfl
  simp only [System.next]
  split
  next => rfl
  next pc hpc =>
      rw [hadvance pc (List.mem_of_getElem? hpc)]

/-- The next machine runs everything but what has a semicolon in it. -/
theorem launches_harmless_quiet :
    ∃ s, (interleavings oneTask).Reachable s ∧ s.requests.map Pc.command? = [some "true"] ∧
      (∀ t ∈ s.database.tasks, AcceptedText t.name ∧ AcceptedText t.command) ∧
      let d : Draw := ⟨"r", TaskService.newYear, quietHost⟩
      s.next (.turn 0 (d.launching fun argv =>
          if ∃ w ∈ argv, ';' ∈ w then .error .permission else .ok (.exited 0 [] []))) =
        s.next (.turn 0 d) := by
  have hdb : ∀ t ∈ oneTask.tasks, AcceptedText t.name ∧ AcceptedText t.command := by
    intro t ht
    obtain rfl := List.mem_singleton.mp ht
    exact ⟨by decide, true_accepted⟩
  have hrun : ((Lts.exec System.next ⟨oneTask, []⟩ ((oneRun quietHost).take 3)).map fun s =>
      decide (s.requests.map Pc.command? = [some "true"])) = some true := by decide
  obtain ⟨s, hs, hend⟩ := Option.map_eq_some_iff.mp hrun
  have hreach : (interleavings oneTask).Reachable s := Lts.Reachable.exec (.init rfl) _ hs
  obtain ⟨htasks, hsame⟩ := launches_harmless hdb hreach
  refine ⟨s, hreach, of_decide_eq_true hend, htasks, hsame 0 _ _ ?_⟩
  intro argv hargv
  have hsemicolon : ';' ∈ injectionBlacklist := by decide
  rw [if_neg fun ⟨w, hw, hc⟩ => (hargv.characters w hw _ hc).2 hsemicolon]
  rfl

end Taskq.Interleaving
