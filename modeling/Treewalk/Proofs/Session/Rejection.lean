import Treewalk.Proofs.Session.InStep

/-!
# Rejected texts

A text that is rejected uses up node numbers and may leave entries in the depth table. Neither
shows: no text before or after it ends differently or writes anything else than it would without it.

## Main results

* `Session.steps_rejected` — a rejected text writes nothing and is of no consequence
* `Session.steps_insertIdx_rejected` — the texts of a session, one of which is rejected
-/

namespace Treewalk.Session

variable {s : Session} {bad : String}

theorem outputFrom_size (m : Machine) : m.outputFrom m.sink.written.size = .empty :=
  ByteArray.extract_same

/-- A text that is rejected writes nothing, and the session is in step with what it was before. -/
theorem run_rejected (h : InStep (fun _ _ => True) .plain 0 s s) (hbad : ¬Source.IsAccepted bad)
    (fuel : Nat) :
    (s.run fuel bad).1 = .rejected (Source.faults bad) ∧
      (s.run fuel bad).2.machine.outputFrom s.machine.sink.written.size = .empty ∧
      InStep (fun _ _ => True) .plain 0 s (s.run fuel bad).2 := by
  have hfollows := (accept_of_rejected h.left hbad).2
  have hself : s.Follows s := ⟨rfl, .refl _, h.left⟩
  rw [run_of_rejected h.left hbad]
  refine ⟨rfl, ?_, h.follow hself hfollows⟩
  have hsink : (s.accept bad).2.machine.sink = s.machine.sink := by rw [hfollows.machine_eq]
  have hempty := outputFrom_size (s.accept bad).2.machine
  rwa [hsink] at hempty

/-- The texts behind a rejected one end as they would without it, and write the same. -/
theorem steps_rejected (h : InStep (fun _ _ => True) .plain 0 s s) (hbad : ¬Source.IsAccepted bad)
    (fuel : Nat) (after : List String) :
    s.steps fuel (bad :: after) =
      (.rejected (Source.faults bad), .empty) :: s.steps fuel after := by
  obtain ⟨houtcome, houtput, hstep⟩ := run_rejected h hbad fuel
  rw [steps_cons, houtcome, houtput, hstep.steps_eq]

theorem steps_insertIdx (h : InStep (fun _ _ => True) .plain 0 s s)
    (hbad : ¬Source.IsAccepted bad) (fuel : Nat) (before after : List String) :
    s.steps fuel (before ++ bad :: after) = (s.steps fuel (before ++ after)).insertIdx before.length
      (.rejected (Source.faults bad), .empty) := by
  induction before generalizing s with
  | nil => exact steps_rejected h hbad fuel after
  | cons source rest ih =>
    have hrest := ih (h.run fuel source fun _ _ _ => trivial).2.1
    rw [List.cons_append, steps_cons, hrest, List.cons_append, steps_cons, List.length_cons,
      List.insertIdx_succ_cons]

/-- **A rejected text is of no consequence.** Put anywhere among the texts of a session, a text with
a fault is rejected with just its faults and writes nothing, and all other texts end in the same way
and write the same as without it. -/
theorem steps_insertIdx_rejected (sink : Sink) (reading : Nat → Float) (fuel : Nat)
    (before after : List String) (bad : String) (hbad : Source.faults bad ≠ []) :
    (initial sink reading).steps fuel (before ++ bad :: after) =
        ((initial sink reading).steps fuel (before ++ after)).insertIdx before.length
          (.rejected (Source.faults bad), .empty) ∧
      (Outcome.rejected (Source.faults bad)).exitCode = 65 :=
  ⟨steps_insertIdx (initial_inStep sink reading 0) (Source.not_isAccepted_of_faults_ne_nil hbad)
    fuel before after, rfl⟩

/-- A text that declares a name twice, between one that defines the name and one that prints it. Its
uses have entries in the depth table although it is rejected. -/
theorem steps_insertIdx_rejected_redeclared :
    Source.faults "\x7b var a = 1; print a; var a = 2; \x7d" ≠ [] ∧
      (initial .unbounded fun _ => 0).steps 100
          (["var a = 3;"] ++ "\x7b var a = 1; print a; var a = 2; \x7d" :: ["print a;"]) =
        ((initial .unbounded fun _ => 0).steps 100 (["var a = 3;"] ++ ["print a;"])).insertIdx 1
          (.rejected (Source.faults "\x7b var a = 1; print a; var a = 2; \x7d"), .empty) :=
  have hbad : Source.faults "\x7b var a = 1; print a; var a = 2; \x7d" ≠ [] := by decide +kernel
  ⟨hbad, (steps_insertIdx_rejected .unbounded (fun _ => 0) 100 ["var a = 3;"] ["print a;"] _ hbad).1⟩

end Treewalk.Session
