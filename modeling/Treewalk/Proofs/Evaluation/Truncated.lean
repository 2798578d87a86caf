import Treewalk.Proofs.Evaluation.Composed
import Treewalk.Proofs.Evaluation.Steps

/-!
# Evaluation with a limited sink

The same evaluation is compared on two sinks: one that takes everything, and one that may have room
for a limited number of bytes and whose flushing may fail. As long as the output fits, the two
evaluations are the same. Where it does not fit any more, the second one halts with what fits
written, and that is a prefix of whatever the first one goes on to write.

## Main definitions

* `Sink.cut` — a limited sink that was given what another one was given
* `Ended.Cut` — how an evaluation ends with a limited sink
* `Truncates` — a computation of which a limited sink keeps a prefix of the output

## Main results

* `compositional_truncates` — this holds of all evaluations
-/

namespace Treewalk

open Eval

variable {α β : Type} {limit : Option Nat} {flushFails : Bool}

/-! ### Limited sinks -/

theorem extract_eq_self_of_size_le {bytes : ByteArray} {n : Nat} (h : bytes.size ≤ n) :
    bytes.extract 0 n = bytes := by
  rw [← Nat.max_eq_left h]
  exact ByteArray.extract_zero_max_size

namespace Sink

variable {s s' : Sink}

/-- The sink has been given no more than `limit` bytes. -/
def Fits (limit : Option Nat) (s : Sink) : Prop := ∀ n, limit = some n → s.written.size ≤ n

/-- The sink with a limit after it was given what `s` was given: what does not fit is missing. -/
def cut (limit : Option Nat) (flushFails : Bool) (s : Sink) : Sink where
  written := match limit with
    | none => s.written
    | some n => s.written.extract 0 n
  limit := limit
  flushFails := flushFails

theorem fits_none : s.Fits none := nofun

theorem fits_some {n : Nat} : s.Fits (some n) ↔ s.written.size ≤ n := by
  constructor
  · intro h
    exact h n rfl
  · rintro h n ⟨⟩
    exact h

/-- A sink that is given more does not fit any better. -/
theorem Extends.fits (h : s.Extends s') (hfits : s'.Fits limit) : s.Fits limit := by
  intro n hn
  obtain ⟨output, hwritten⟩ := h.written
  have hle := hfits n hn
  rw [hwritten, ByteArray.size_append] at hle
  omega

theorem written_cut_of_fits (h : s.Fits limit) : (s.cut limit flushFails).written = s.written := by
  cases limit with
  | none => rfl
  | some n => exact extract_eq_self_of_size_le (fits_some.1 h)

/-- What is written beyond the limit makes no difference. -/
theorem Extends.cut_eq (h : s.Extends s') (hfull : ¬s.Fits limit) :
    s'.cut limit flushFails = s.cut limit flushFails := by
  cases limit with
  | none => exact absurd fits_none hfull
  | some n =>
    rw [fits_some] at hfull
    obtain ⟨output, hwritten⟩ := h.written
    have hnone : output.extract 0 (n - s.written.size) = .empty := by
      rw [ByteArray.extract_eq_empty_iff]
      omega
    rw [cut, cut, hwritten, ByteArray.extract_append, Nat.zero_sub, hnone, ByteArray.append_empty]

/-- A limited sink keeps the first `n` bytes of what it was given and is given now. -/
theorem write_of_limit_eq_some {n : Nat} (hlimit : s.limit = some n) (hle : s.written.size ≤ n)
    (text : String) :
    s.write text =
      (if s.written.size + text.toUTF8.size ≤ n then none else some .sinkFull,
        { s with written := (s.written ++ text.toUTF8).extract 0 n }) := by
  have hroom : s.room text.toUTF8.size = min text.toUTF8.size (n - s.written.size) := by
    rw [room, hlimit]
  by_cases h : s.written.size + text.toUTF8.size ≤ n
  · have hfits : text.toUTF8.size ≤ min text.toUTF8.size (n - s.written.size) := by omega
    have hall : (s.written ++ text.toUTF8).extract 0 n = s.written ++ text.toUTF8 :=
      extract_eq_self_of_size_le (ByteArray.size_append.trans_le h)
    rw [write, hroom, if_pos hfits, if_pos h, hall]
  · have hfull : ¬text.toUTF8.size ≤ min text.toUTF8.size (n - s.written.size) := by omega
    have hmin : min text.toUTF8.size (n - s.written.size) = n - s.written.size := by omega
    rw [write, hroom, if_neg hfull, if_neg h, hmin, ByteArray.extract_append, Nat.zero_sub,
      extract_eq_self_of_size_le hle]

/-- Writing to the limited sink: it takes what fits, and there is a fault if that is not all. -/
theorem write_cut (hlimit : s.limit = none) (hfits : s.Fits limit) (text : String) :
    ((s.write text).2.Fits limit → (s.cut limit flushFails).write text =
        (none, (s.write text).2.cut limit flushFails)) ∧
      (¬(s.write text).2.Fits limit → (s.cut limit flushFails).write text =
        (some .sinkFull, (s.write text).2.cut limit flushFails)) := by
  have hwritten : (s.cut limit flushFails).written = s.written := written_cut_of_fits hfits
  rw [write_of_limit_eq_none hlimit]
  cases limit with
  | none =>
    refine ⟨fun _ => ?_, fun hfull => absurd fits_none hfull⟩
    exact write_of_limit_eq_none rfl text
  | some n =>
    have hle := fits_some.1 hfits
    simp only [fits_some, ByteArray.size_append]
    rw [write_of_limit_eq_some rfl (hwritten.symm ▸ hle), hwritten]
    exact ⟨fun h => by rw [if_pos h]; rfl, fun h => by rw [if_neg h]; rfl⟩

end Sink

/-! ### Truncated evaluations -/

/-- What becomes of an evaluation that ends in `r` if the sink is limited: it ends in the same way
if all output fits, and otherwise halts because the sink is full. -/
structure Ended.Cut (limit : Option Nat) (flushFails : Bool) (r r' : Ended α) : Prop where
  of_fits : r.machine.sink.Fits limit → r' = r.withSink (r.machine.sink.cut limit flushFails)
  of_full : ¬r.machine.sink.Fits limit → ∃ m', r' = .error (.fault (.output .sinkFull)) m' ∧
    m'.sink = r.machine.sink.cut limit flushFails

theorem Ended.Cut.withCurrent {r r' : Ended α} (h : Ended.Cut limit flushFails r r')
    (frame : FrameId) :
    Ended.Cut limit flushFails (r.withCurrent frame) (r'.withCurrent frame) := by
  constructor
  · intro hfits
    rw [machine_withCurrent] at hfits ⊢
    rw [h.of_fits hfits]
    cases r <;> rfl
  · intro hfull
    rw [machine_withCurrent] at hfull ⊢
    obtain ⟨m', rfl, hsink⟩ := h.of_full hfull
    exact ⟨{ m' with current := frame }, rfl, hsink⟩

/-- With a sink that takes everything the computation only adds to the output, and a limited sink
cuts it short. -/
def Truncates (limit : Option Nat) (flushFails : Bool) (c : Eval α) : Prop :=
  ∀ m : Machine, m.sink.limit = none →
    m.sink.Extends (Ended.machine (c m)).sink ∧
      (m.sink.Fits limit →
        Ended.Cut limit flushFails (c m) (c { m with sink := m.sink.cut limit flushFails }))

namespace Truncates

variable {c : Eval α} {f : α → Eval β}

/-- A computation that leaves the sink as it is goes on as before. -/
theorem of_silent (h : Silent c) : Truncates limit flushFails c := by
  intro m hlimit
  have hsink := h.sink_eq m
  refine ⟨hsink.symm ▸ .refl m.sink, fun hfits => ⟨fun _ => ?_, fun hfull => ?_⟩⟩
  · rw [hsink]
    exact h.withSink m _
  · exact absurd (hsink.symm ▸ hfits) hfull

protected theorem bind (hc : Truncates limit flushFails c)
    (hf : ∀ a, Truncates limit flushFails (f a)) : Truncates limit flushFails (c >>= f) := by
  intro m hlimit
  obtain ⟨hext, hcut⟩ := hc m hlimit
  cases h : c m with
  | error halt m₁ =>
    rw [h] at hext hcut
    rw [bind_eq_error h]
    refine ⟨hext, fun hfits => ⟨fun hfits₁ => ?_, fun hfull => ?_⟩⟩
    · exact bind_eq_error ((hcut hfits).of_fits hfits₁)
    · obtain ⟨m', hc', hsink⟩ := (hcut hfits).of_full hfull
      exact ⟨m', bind_eq_error hc', hsink⟩
  | ok a m₁ =>
    rw [h] at hext hcut
    rw [bind_eq_of_ok h]
    obtain ⟨hext₁, hcut₁⟩ := hf a m₁ (hext.limit_eq.trans hlimit)
    refine ⟨hext.trans hext₁, fun hfits => ?_⟩
    by_cases hfits₁ : m₁.sink.Fits limit
    · -- the first computation ends as before, and the second one decides
      have hc' := (hcut hfits).of_fits hfits₁
      rw [bind_eq_of_ok hc']
      exact hcut₁ hfits₁
    · -- the first computation halts, so that the second one does not begin
      obtain ⟨m', hc', hsink⟩ := (hcut hfits).of_full hfits₁
      rw [bind_eq_error hc']
      refine ⟨fun hfits₂ => absurd (hext₁.fits hfits₂) hfits₁, fun _ => ⟨m', rfl, ?_⟩⟩
      exact hsink.trans (hext₁.cut_eq hfits₁).symm

theorem inFrame (frame : FrameId) (hc : Truncates limit flushFails c) :
    Truncates limit flushFails (inFrame frame c) := by
  intro m hlimit
  obtain ⟨hext, hcut⟩ := hc { m with current := frame } hlimit
  simp only [inFrame_eq_withCurrent, Ended.machine_withCurrent]
  exact ⟨hext, fun hfits => (hcut hfits).withCurrent m.current⟩

/-- A line may fit in part. -/
theorem printLine (text : String) : Truncates limit flushFails (printLine text) := by
  intro m hlimit
  have hwrite := Sink.write_of_limit_eq_none hlimit (text ++ "\n")
  have hall : Eval.printLine text m =
      .ok () { m with sink := (m.sink.write (text ++ "\n")).2 } := by
    rw [Eval.printLine, modifyGet_bind_apply, hwrite]
    rfl
  rw [hall]
  refine ⟨m.sink.extends_write _, fun hfits => ⟨fun hfits₁ => ?_, fun hfull => ?_⟩⟩
  · rw [Eval.printLine, modifyGet_bind_apply, (Sink.write_cut hlimit hfits _).1 hfits₁]
    rfl
  · rw [Eval.printLine, modifyGet_bind_apply, (Sink.write_cut hlimit hfits _).2 hfull]
    exact ⟨_, rfl, rfl⟩

end Truncates

theorem compositional_truncates (limit : Option Nat) (flushFails : Bool) :
    Compositional fun _ c => Truncates limit flushFails c where
  silent := .of_silent
  printLine := .printLine
  inFrame := .inFrame
  bind := .bind

end Treewalk
