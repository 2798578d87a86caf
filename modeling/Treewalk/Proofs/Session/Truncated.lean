import Treewalk.Proofs.Evaluation.Truncated
import Treewalk.Proofs.Session.CurrentFrame

/-!
# Texts run with a limited sink

A text is run twice: with a sink that takes everything, and with one that is limited or whose
flushing fails. The second run writes the beginning of what the first one writes, and ends as it
does unless the sink is in the way.

## Main definitions

* `Outcome.flushed` — how a run ends if flushing may fail
* `Session.runFresh` — a text run on a fresh machine

## Main results

* `Session.run_cut` — a text run with a limited sink
* `Session.runFresh_truncated` — the same on a fresh machine
-/

namespace Treewalk

open Eval

variable {limit : Option Nat} {flushFails : Bool}

/-- How a run ends if flushing may fail. Only a program that comes to its end is flushed. -/
def Outcome.flushed (flushFails : Bool) : Outcome → Outcome
  | success => if flushFails then failed (.output .flushFailed) else success
  | outcome => outcome

theorem Outcome.flushed_false (o : Outcome) : o.flushed false = o := by
  cases o <;> rfl

theorem Outcome.flushed_of_ne {o : Outcome} (h : o ≠ .success) : o.flushed flushFails = o := by
  cases o with
  | success => exact absurd rfl h
  | _ => rfl

/-! ### Programs -/

theorem Eval.flushOutput_eq (m : Machine) :
    flushOutput m = if m.sink.flushFails then .error (.fault (.output .flushFailed)) m
      else .ok () m := by
  rw [flushOutput, get_bind_apply, Sink.flush]
  cases m.sink.flushFails <;> rfl

/-- A run with a limited sink ends as `whole` does, where the output fits, and otherwise because the
sink is full. In any case the sink has taken what it has room for. -/
structure RunCut (limit : Option Nat) (flushFails : Bool) (whole cut : Outcome × Sink) : Prop where
  sink_eq : cut.2 = whole.2.cut limit flushFails
  of_fits : whole.2.Fits limit → cut.1 = whole.1.flushed flushFails
  of_full : ¬whole.2.Fits limit → cut.1 = .failed (.output .sinkFull)

/-- The outcome of a run, and the sink it leaves. -/
def Machine.runSink (m : Machine) (fuel : Nat) (program : List Stmt) : Outcome × Sink :=
  ((m.run fuel program).1, (m.run fuel program).2.sink)

theorem Machine.run_cut {m : Machine} (hlimit : m.sink.limit = none)
    (hflush : m.sink.flushFails = false) (hfits : m.sink.Fits limit) (fuel : Nat)
    (program : List Stmt) :
    RunCut limit flushFails (m.runSink fuel program)
      (runSink { m with sink := m.sink.cut limit flushFails } fuel program) := by
  obtain ⟨hext, hcut⟩ :=
    (compositional_truncates limit flushFails).executeProgram fuel program m hlimit
  replace hcut := hcut hfits
  cases h : executeProgram fuel program m with
  | error halt m₁ =>
    rw [h] at hcut
    have hwhole : m.run fuel program = outcomeOf (.error halt m₁ : Ended Unit) := by
      rw [run, interpret, bind_eq_error h]
    by_cases hfits₁ : m₁.sink.Fits limit
    · have hrun := hcut.of_fits hfits₁
      rw [runSink, runSink, hwhole, run, interpret, bind_eq_error hrun]
      cases halt <;> exact ⟨rfl, fun _ => rfl, fun hfull => absurd hfits₁ hfull⟩
    · obtain ⟨m', hrun, hsink⟩ := hcut.of_full hfits₁
      rw [runSink, runSink, hwhole, run, interpret, bind_eq_error hrun]
      cases halt <;> exact ⟨hsink, fun hfits₂ => absurd hfits₂ hfits₁, fun _ => rfl⟩
  | ok u m₁ =>
    rw [h] at hcut hext
    have hflush₁ : m₁.sink.flushFails = false := hext.flushFails_eq.trans hflush
    have hwhole : m.run fuel program = (.success, m₁) := by
      rw [run, interpret, bind_eq_of_ok h, flushOutput_eq, hflush₁]
      rfl
    by_cases hfits₁ : m₁.sink.Fits limit
    · have hrun := hcut.of_fits hfits₁
      rw [runSink, runSink, hwhole, run, interpret, bind_eq_of_ok hrun, flushOutput_eq]
      cases flushFails <;> exact ⟨rfl, fun _ => rfl, fun hfull => absurd hfits₁ hfull⟩
    · obtain ⟨m', hrun, hsink⟩ := hcut.of_full hfits₁
      rw [runSink, runSink, hwhole, run, interpret, bind_eq_error hrun]
      exact ⟨hsink, fun hfits₂ => absurd hfits₂ hfits₁, fun _ => rfl⟩

/-! ### Texts -/

namespace Session

/-- The session with another sink. -/
def withSink (s : Session) (sink : Sink) : Session := { s with machine := { s.machine with sink } }

/-- Checking a text has nothing to do with output. -/
theorem accept_withSink (s : Session) (sink : Sink) (source : String) :
    (s.withSink sink).accept source =
      ((s.accept source).1, (s.accept source).2.withSink sink) := by
  have hread : (s.withSink sink).read source =
      ((s.read source).1, (s.read source).2.withSink sink) := rfl
  rw [accept, accept, hread]
  cases s.read source with
  | mk result s₁ =>
    cases result with
    | error faults => rfl
    | ok program =>
      have hcheck : (s₁.withSink sink).check program =
          ((s₁.check program).1, (s₁.check program).2.withSink sink) := rfl
      dsimp only
      rw [hcheck]
      cases s₁.check program with
      | mk faults s₂ => cases faults <;> rfl

theorem sink_accept (s : Session) (source : String) :
    (s.accept source).2.machine.sink = s.machine.sink := by
  have hsame := congrArg (·.2.machine.sink) (s.accept_withSink s.machine.sink source)
  exact hsame

/-- The outcome of a text, and the sink it leaves. -/
def runSink (s : Session) (fuel : Nat) (source : String) : Outcome × Sink :=
  ((s.run fuel source).1, (s.run fuel source).2.machine.sink)

theorem run_cut {s : Session} (hlimit : s.machine.sink.limit = none)
    (hflush : s.machine.sink.flushFails = false) (hfits : s.machine.sink.Fits limit) (fuel : Nat)
    (source : String) :
    RunCut limit flushFails (s.runSink fuel source)
      ((s.withSink (s.machine.sink.cut limit flushFails)).runSink fuel source) := by
  have hsink := s.sink_accept source
  rw [runSink, runSink, run, run, accept_withSink]
  cases h : s.accept source with
  | mk result s₁ =>
    rw [h] at hsink
    have hsink : s₁.machine.sink = s.machine.sink := hsink
    rw [← hsink] at hlimit hflush hfits ⊢
    cases result with
    | error faults => exact ⟨rfl, fun _ => rfl, fun hfull => absurd hfits hfull⟩
    | ok program => exact Machine.run_cut hlimit hflush hfits fuel program

/-- On a fresh machine the sink has room for what it was given so far, which is nothing. -/
theorem run_cut_initial (limit : Option Nat) (flushFails : Bool) (reading : Nat → Float)
    (fuel : Nat) (source : String) : RunCut limit flushFails
      ((initial .unbounded reading).runSink fuel source)
      ((initial ⟨.empty, limit, flushFails⟩ reading).runSink fuel source) := by
  have hfits : Sink.unbounded.Fits limit := fun n _ => Nat.zero_le n
  have hempty : Sink.unbounded.cut limit flushFails = ⟨.empty, limit, flushFails⟩ := by
    cases limit <;> simp [Sink.cut, Sink.unbounded]
  have hinitial : (initial .unbounded reading).withSink (Sink.unbounded.cut limit flushFails) =
      initial ⟨.empty, limit, flushFails⟩ reading := by
    rw [hempty]
    rfl
  have hrun : RunCut limit flushFails ((initial .unbounded reading).runSink fuel source)
      (((initial .unbounded reading).withSink (Sink.unbounded.cut limit flushFails)).runSink
        fuel source) := run_cut rfl rfl hfits fuel source
  exact hinitial ▸ hrun

/-- How a text ends on a fresh machine with the given sink, and what it wrote. -/
def runFresh (sink : Sink) (reading : Nat → Float) (fuel : Nat) (source : String) :
    Outcome × ByteArray :=
  (((initial sink reading).run fuel source).1, ((initial sink reading).run fuel source).2.output)

/-- **A limited sink only cuts the output short.** Let a text end with `outcome` and write `output`
with a sink that takes everything. With a sink that has room for `n` bytes it writes the first `n`
bytes of `output`; it ends in the same way if that is all of `output`, and otherwise it fails
because the sink is full. If flushing fails it writes the same, and ends in the same way unless
`outcome` is success. -/
theorem runFresh_truncated (reading : Nat → Float) (fuel : Nat) (source : String) :
    ∃ outcome output, runFresh .unbounded reading fuel source = (outcome, output) ∧
      (∀ n, ∃ outcome', runFresh ⟨.empty, some n, false⟩ reading fuel source =
          (outcome', output.extract 0 (min n output.size)) ∧
        (output.size ≤ n → outcome' = outcome) ∧
        (n < output.size → outcome' = .failed (.output .sinkFull))) ∧
      ∃ outcome', runFresh ⟨.empty, none, true⟩ reading fuel source = (outcome', output) ∧
        (outcome = .success → outcome' = .failed (.output .flushFailed)) ∧
        (outcome ≠ .success → outcome' = outcome) := by
  have hcut (limit : Option Nat) (flushFails : Bool) :=
    run_cut_initial limit flushFails reading fuel source
  refine ⟨_, _, rfl, fun n => ⟨_, Prod.ext rfl ?_, fun hle => ?_, fun hlt => ?_⟩,
    _, Prod.ext rfl ?_, fun hsuccess => ?_, fun hne => ?_⟩
  · refine (congrArg Sink.written (hcut (some n) false).sink_eq).trans ?_
    show ByteArray.extract _ 0 n = ByteArray.extract _ 0 (min n _)
    rcases Nat.le_total n ((initial .unbounded reading).run fuel source).2.output.size with h | h
    · rw [Nat.min_eq_left h]
      rfl
    · rw [Nat.min_eq_right h, ByteArray.extract_zero_size]
      exact extract_eq_self_of_size_le h
  · refine ((hcut (some n) false).of_fits (Sink.fits_some.2 hle)).trans ?_
    exact Outcome.flushed_false _
  · exact (hcut (some n) false).of_full fun hfits => (Sink.fits_some.1 hfits).not_gt hlt
  · refine (congrArg Sink.written (hcut none true).sink_eq).trans ?_
    rfl
  · refine ((hcut none true).of_fits Sink.fits_none).trans ?_
    show Outcome.flushed true ((initial .unbounded reading).run fuel source).1 = _
    have hsuccess : ((initial .unbounded reading).run fuel source).1 = .success := hsuccess
    rw [hsuccess]
    rfl
  · refine ((hcut none true).of_fits Sink.fits_none).trans ?_
    exact Outcome.flushed_of_ne hne

end Session

end Treewalk
