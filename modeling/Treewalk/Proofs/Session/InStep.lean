import Treewalk.Proofs.Evaluation.Lockstep
import Treewalk.Proofs.Scope.Renaming
import Treewalk.Proofs.Session.Acceptance

/-!
# Sessions in step

Two sessions whose machines are a sound pair, between two texts. Checking texts keeps them so, also
if only one of the sessions checks a text; and so does running twin programs, which end alike.

## Main definitions

* `Outcome.Twin` — two runs that end for the same reason
* `Session.InStep` — two sessions whose machines are a sound pair

## Main results

* `Session.InStep.follow` — checking texts
* `Session.InStep.interpret` — running the programs of two texts
* `Session.InStep.run` — running one text in both sessions
-/

namespace Treewalk

open Eval

variable {R : Place → Moment → Prop} {S : Setting}

/-! ### How runs end -/

/-- Two runs that end for the same reason. -/
inductive Outcome.Twin (R : Place → Moment → Prop) (S : Setting) : Outcome → Outcome → Prop
  | success : Outcome.Twin R S .success .success
  | failed {fault fault' : Diagnostic} (h : Halt.Twin R S (.fault fault) (.fault fault')) :
      Outcome.Twin R S (.failed fault) (.failed fault')
  | exhausted : Outcome.Twin R S .exhausted .exhausted

/-- If no program is further down, runs that end for the same reason end in the same way. -/
theorem Outcome.Twin.eq {o o' : Outcome} (h : Outcome.Twin R S o o')
    (hlines : ∀ origin, S.lines origin = 0) : o' = o := by
  cases h with
  | success | exhausted => rfl
  | failed h =>
    cases h with
    | fault => rw [hlines, Nat.add_zero]
    | output => rfl

/-- A runtime fault is raised at a moment of the run, and the twin reports it as many lines further
down as the program of that moment stands. -/
theorem Outcome.Twin.exists_raises {line : Nat} {cause : RuntimeFault} {o' : Outcome}
    (h : Outcome.Twin R S (.failed (.runtime line cause)) o') :
    ∃ place moment token, Happens R place moment ∧ Raises moment token cause ∧ token.line = line ∧
      o' = .failed (.runtime (line + S.lines place.origin) cause) := by
  cases h with
  | failed h =>
    cases h with
    | fault hh hraises => exact ⟨_, _, _, hh, hraises, rfl, rfl⟩

/-- Computations in step, told by the machines they leave. -/
theorem Runs.outcome {p : Pair} {c c' : Eval Unit} {Q : Pair → Unit → Unit → Prop}
    (h : Runs R S p c c' Q) (hsettled : S.Settled (outcomeOf (c p.left)).2) :
    ∃ p', p.Kept R S p' ∧ (outcomeOf (c p.left)).2 = p'.left ∧
      (outcomeOf (c' p.right)).2 = p'.right ∧
      Outcome.Twin R S (outcomeOf (c p.left)).1 (outcomeOf (c' p.right)).1 := by
  cases hc : c p.left with
  | ok a m =>
    obtain ⟨b, p', hc', rfl, hk, -⟩ := h.exists_of_ok hc
    rw [hc']
    exact ⟨p', hk, rfl, rfl, .success⟩
  | error halt m =>
    have hm : (outcomeOf (c p.left)).2 = m := by
      rw [hc]
      cases halt <;> rfl
    obtain ⟨halt', p', hc', rfl, hk, hhalt⟩ := h.exists_of_error hc (hm ▸ hsettled)
    rw [hc']
    cases hhalt with
    | fault hh hraises => exact ⟨p', hk, rfl, rfl, .failed (.fault hh hraises)⟩
    | output => exact ⟨p', hk, rfl, rfl, .failed .output⟩
    | exhausted => exact ⟨p', hk, rfl, rfl, .exhausted⟩

/-! ### The initial machine -/

/-- A machine before any program ran, and one all of whose frames, objects and stamps are beside
those of the first one. -/
theorem Pair.sound_fresh {p : Pair} {sink : Sink} {reading : Nat → Float}
    (hstore : p.left.store = (Machine.initial sink reading).store)
    (hcurrent : p.left.current = globals) (hcurrent' : p.right.current = globals)
    (hstamp : p.left.nextStamp = 0) (hstamps : p.right.nextStamp = S.stamps)
    (hframes : p.right.store.frames.size = 1 + S.frames)
    (hobjects : p.right.store.objects.size = S.objects)
    (henclosing : p.right.store.enclosing? globals = none)
    (hsinks : S.SinksTwin p.left.sink p.right.sink)
    (hclock : ¬S.unused "clock" → p.right.clock = p.left.clock)
    (hlocals : ∀ name, ¬S.unused name → Value.LocalTwin R S p globals name
      (p.left.store.local? globals name) (p.right.store.local? globals name))
    (hmarked : ∀ frame, p.marked frame = false) : p.Sound R S := by
  have hone : p.left.store.frames.size = 1 := by rw [hstore]; rfl
  have hnone : p.left.store.objects.size = 0 := by rw [hstore]; rfl
  have hbehind {frame : FrameId} (h : frame ≠ globals) :
      p.right.store.frames.size ≤ S.frame frame := by
    have := Nat.pos_of_ne_zero h
    rw [S.frame_of_ne h, hframes]
    omega
  refine { current_eq := ?_, sinks := hsinks, clock_eq := hclock, nextStamp_eq := ?_
           frames_size_eq := ?_, objects_size_eq := ?_, enclosing?_eq := ?_, locals := ?_
           fields := ?_, globals_lt := ?_, enclosing?_globals := ?_
           marked_globals := hmarked _, old_ne_new := ?_ }
  · rw [hcurrent, hcurrent', S.frame_globals]
  · rw [hstamp, hstamps, Nat.zero_add]
  · rw [hone, hframes]
  · rw [hnone, hobjects, Nat.zero_add]
  · intro frame
    have hleft : p.left.store.enclosing? frame = none := by
      rw [hstore]
      cases frame <;> rfl
    rw [hleft]
    by_cases h : frame = globals
    · rw [h, S.frame_globals]
      exact henclosing
    · rw [Store.enclosing?, Array.getElem?_eq_none (hbehind h)]
      rfl
  · intro frame name name' hused hname
    obtain rfl : name' = name := Respelling.Spells.eq (hmarked frame ▸ hname)
    by_cases h : frame = globals
    · rw [h, S.frame_globals]
      exact hlocals name' hused
    · rw [Store.local?_of_size_le _ (hbehind h), hstore, Machine.local?_initial,
        if_neg fun h' => h h'.1]
      exact .unbound
  · intro object name
    rw [Store.field?, Store.field?, Array.getElem?_eq_none (by omega),
      Array.getElem?_eq_none (by omega)]
    exact .none
  · rw [hone]
    exact Nat.one_pos
  · rw [hstore]
    rfl
  · intro frame h
    rw [hmarked] at h
    cases h

/-- Two machines before any program ran are a sound pair. -/
theorem Pair.sound_initial (hframes : S.frames = 0) (hobjects : S.objects = 0)
    (hstamps : S.stamps = 0) (hbefore : S.before = .empty) (hbefore' : S.before' = .empty)
    (sink : Sink) (reading : Nat → Float) (text : Nat) :
    (Pair.mk (.initial sink reading) (.initial sink reading) 0 0 text
      fun _ => false).Sound R S := by
  refine Pair.sound_fresh rfl rfl rfl rfl hstamps.symm ?_ hobjects.symm rfl ?_ (fun _ => rfl)
    (fun name hused => ?_) fun _ => rfl
  · rw [hframes]
    rfl
  · refine ⟨rfl, rfl, ⟨sink.written, ?_, ?_⟩, .inr (hbefore'.trans hbefore.symm)⟩
    · rw [hbefore, ByteArray.empty_append]
      rfl
    · rw [hbefore', ByteArray.empty_append]
      rfl
  · show Value.LocalTwin R S _ globals name
      ((Machine.initial sink reading).store.local? globals name)
      ((Machine.initial sink reading).store.local? globals name)
    rw [Machine.local?_initial]
    split
    · next h => exact .bound (.native (h.2 ▸ hused))
    · exact .unbound

namespace Session

variable {s s' s₁ s₁' : Session} {text : Nat} {source source' : String}
  {program program' : List Stmt}

/-- The machines of two sessions that are about to run their `text`-th texts. -/
def beside (s s' : Session) (text : Nat) : Pair :=
  ⟨s.machine, s'.machine, s.nextId, s'.nextId, text, fun _ => false⟩

/-- Two sessions between two texts whose machines are a sound pair. -/
structure InStep (R : Place → Moment → Prop) (S : Setting) (text : Nat) (s s' : Session) :
    Prop where
  sound : (s.beside s' text).Sound R S
  left : s.Ready
  right : s'.Ready

/-! ### Accepted texts -/

/-- In a session that has taken over a text, the uses of its program are linked to those of a twin
that another session has taken over. -/
theorem Takes.linked {r : Edit} (hr : r.Fair) (h : s.Takes source program s₁)
    (h' : s'.Takes source' program' s₁')
    (htwin : Stmt.TwinAll r (Paired r) .top [] program program') :
    Stmt.TwinAll r (Linked r s₁.ids s₁'.ids) .top [] program program' :=
  htwin.link hr .top Site.tidy_top h.faults_eq h.tellsAll h'.tellsAll

/-- Two sessions read one text as twin programs, which the identifiers of the text do not
prevent. -/
theorem Takes.twinAll {r : Edit} (hold : r.old = r.new) (hlines : r.lines = 0) (hr : r.Fair)
    (hadmits : ∀ name ∈ Source.identifiers source, r.Admits name)
    (h : s.Takes source program s₁) (h' : s'.Takes source program' s₁') :
    Stmt.TwinAll r (Paired r) .top [] program program' := by
  have hnamed := Source.namedAll_of_parse h.parse_eq hadmits
  have hself := twinAll_self hold hlines hr hnamed h.faults_eq
  obtain ⟨faults, herror, -⟩ | ⟨a, b, ha, hb, hsame⟩ :=
    Source.parse_result_alike source s.nextId s'.nextId
  · rw [h.parse_eq] at herror
    cases herror
  · obtain rfl : program = a := Except.ok.inj (h.parse_eq.symm.trans ha)
    obtain rfl : program' = b := Except.ok.inj (h'.parse_eq.symm.trans hb)
    exact hself.of_eraseIds_eq hsame

/-- Every identifier is fine where nothing is replaced. -/
theorem admits_plain {name : String} (h : name ∈ Source.identifiers source) :
    Respelling.plain.Admits name :=
  ⟨Source.ne_spelling_of_mem_identifiers h .this, Source.ne_spelling_of_mem_identifiers h .super,
    fun hne => absurd rfl hne, id⟩

namespace InStep

/-- Sessions stay in step when they check texts, whether they check the same ones or not. -/
theorem follow (h : InStep R S text s s') (hs : s.Follows s₁) (hs' : s'.Follows s₁') :
    InStep R S text s₁ s₁' := by
  have hext : (s.beside s' text).Extends (s₁.beside s₁' text) := by
    refine ⟨?_, hs.extends_, hs'.extends_, le_rfl, fun _ _ => rfl⟩
    show s.machine.store.Extends s₁.machine.store
    rw [hs.machine_eq]
    exact .refl _
  refine ⟨h.sound.of_store_eq hext ?_ ?_ rfl ?_ ?_ ?_ ?_, hs.ready, hs'.ready⟩
  · show s₁.machine.store = s.machine.store
    rw [hs.machine_eq]
  · show s₁'.machine.store = s'.machine.store
    rw [hs'.machine_eq]
  · show s₁'.machine.current = S.frame s₁.machine.current
    rw [hs.machine_eq, hs'.machine_eq]
    exact h.sound.current_eq
  · show S.SinksTwin s₁.machine.sink s₁'.machine.sink
    rw [hs.machine_eq, hs'.machine_eq]
    exact h.sound.sinks
  · show ¬S.unused "clock" → s₁'.machine.clock = s₁.machine.clock
    rw [hs.machine_eq, hs'.machine_eq]
    exact h.sound.clock_eq
  · show s₁'.machine.nextStamp = s₁.machine.nextStamp + S.stamps
    rw [hs.machine_eq, hs'.machine_eq]
    exact h.sound.nextStamp_eq

theorem later (h : InStep R S text s s') {text' : Nat} (htext : text ≤ text') :
    InStep R S text' s s' := by
  have hext : (s.beside s' text).Extends (s.beside s' text') :=
    ⟨.refl _, .refl _, .refl _, htext, fun _ _ => rfl⟩
  exact ⟨h.sound.of_store_eq hext rfl rfl rfl h.sound.current_eq h.sound.sinks h.sound.clock_eq
    h.sound.nextStamp_eq, h.left, h.right⟩

/-- Between two texts the machines stand at the top level. -/
theorem at_top (h : InStep R S text s s') : (s.beside s' text).At R S (.top text) [] := by
  refine ⟨h.sound, rfl, ?_⟩
  show Mirrors s.machine.store _ [] [] [] s.machine.current
  rw [h.left.current_eq]
  exact .globals

/-- The sessions with the machines that computations in step leave. -/
theorem of_kept {p : Pair} (h : InStep R S text s s') (hr : S.old = S.new)
    (hk : (s.beside s' text).Kept R S p) :
    InStep R S text { s with machine := p.left } { s' with machine := p.right } := by
  have hp : p = ⟨p.left, p.right, s.nextId, s'.nextId, text, fun _ => false⟩ := hk.eq_mk hr
  have hsound := hk.sound
  have hcurrent : p.left.current = globals := hk.current_eq.trans h.left.current_eq
  have hdepths : p.left.depths = s.machine.depths := congrArg Numbering.table hk.leftIds_eq
  have hdepths' : p.right.depths = s'.machine.depths := congrArg Numbering.table hk.rightIds_eq
  refine ⟨?_, ⟨hcurrent, fun id hid => ?_⟩, ⟨?_, fun id hid => ?_⟩⟩
  · rw [hp] at hsound
    exact hsound
  · show p.left.depths.depth? id = none
    rw [hdepths]
    exact h.left.depth?_eq_none id hid
  · show p.right.current = globals
    rw [hsound.current_eq, hcurrent, S.frame_globals]
  · show p.right.depths.depth? id = none
    rw [hdepths']
    exact h.right.depth?_eq_none id hid

/-- Twin programs that two sessions have taken over run in step. -/
theorem interpret (h : InStep R S text s s') (fuel : Nat)
    (hprogram : Stmt.TwinAll (S.edit text) (Linked (S.edit text) s.ids s'.ids) .top [] program
      program')
    (hh : Happens R (.top text) (.program fuel program s.machine)) :
    Runs R S (s.beside s' text) (Eval.interpret fuel program) (Eval.interpret fuel program')
      fun _ _ _ => True :=
  Runs.interpret h.at_top hprogram hh

end InStep

/-! ### One text in two sessions -/

theorem initial_inStep (sink : Sink) (reading : Nat → Float) (text : Nat) :
    InStep R .plain text (initial sink reading) (initial sink reading) :=
  ⟨Pair.sound_initial rfl rfl rfl rfl rfl sink reading text, ready_initial sink reading,
    ready_initial sink reading⟩

theorem run_of_takes {fuel : Nat} (h : s.accept source = (.ok program, s₁)) :
    s.run fuel source = ((s₁.machine.run fuel program).1,
      { s₁ with machine := (s₁.machine.run fuel program).2 }) := by
  rw [run, h]

theorem run_of_rejected {fuel : Nat} (hs : s.Ready) (h : ¬Source.IsAccepted source) :
    s.run fuel source = (.rejected (Source.faults source), (s.accept source).2) := by
  have haccept : s.accept source = (.error (Source.faults source), (s.accept source).2) :=
    Prod.ext (accept_of_rejected hs h).1 rfl
  rw [run, haccept]

/-- The outcome of a text is the same in two sessions that are in step, and so are the sessions it
leaves. Running the text adds nothing to what checking it recorded. -/
theorem InStep.run (h : InStep R .plain text s s') (fuel : Nat) (source : String)
    (hroot : ∀ program s₁, s.accept source = (.ok program, s₁) →
      R (.top text) (.program fuel program s₁.machine)) :
    (s'.run fuel source).1 = (s.run fuel source).1 ∧
      InStep R .plain text (s.run fuel source).2 (s'.run fuel source).2 ∧
      (s.run fuel source).2.ids = (s.accept source).2.ids := by
  by_cases haccepted : Source.IsAccepted source
  · obtain ⟨program, s₁, haccept, htakes⟩ := accept_of_isAccepted h.left haccepted
    obtain ⟨program', s₁', haccept', htakes'⟩ := accept_of_isAccepted h.right haccepted
    have hchecked := h.follow htakes.toFollows htakes'.toFollows
    have htwin : Stmt.TwinAll .plain (Paired .plain) .top [] program program' :=
      htakes.twinAll rfl rfl Respelling.fair_plain (fun _ => admits_plain) htakes'
    have hlinked := htakes.linked Respelling.fair_plain htakes' htwin
    have hrun := hchecked.interpret fuel hlinked (.root (hroot program s₁ haccept))
    obtain ⟨p, hk, hleft, hright, houtcome⟩ := hrun.outcome nofun
    rw [run_of_takes haccept, run_of_takes haccept']
    have hleft : (s₁.machine.run fuel program).2 = p.left := hleft
    have hright : (s₁'.machine.run fuel program').2 = p.right := hright
    refine ⟨houtcome.eq fun _ => rfl, ?_, ?_⟩
    · rw [hleft, hright]
      exact hchecked.of_kept rfl hk
    · have hdepths : p.left.depths = s₁.machine.depths := congrArg Numbering.table hk.leftIds_eq
      rw [hleft, haccept, ids, ids, hdepths]
  · rw [run_of_rejected h.left haccepted, run_of_rejected h.right haccepted]
    exact ⟨rfl, h.follow (accept_of_rejected h.left haccepted).2
      (accept_of_rejected h.right haccepted).2, rfl⟩

theorem InStep.sink_eq (h : InStep R .plain text s s') : s'.machine.sink = s.machine.sink :=
  h.sound.sinks.eq_of_before_eq rfl

/-! ### Texts in turn -/

/-- What a machine wrote after what was written before. -/
theorem outputFrom_eq {m : Machine} {before output : ByteArray}
    (h : m.sink.written = before ++ output) : m.outputFrom before.size = output := by
  rw [Machine.outputFrom, h]
  exact ByteArray.extract_append_eq_right rfl ByteArray.size_append

/-- Runs source texts in turn: how each of them ended, and what it wrote. -/
def steps (s : Session) (fuel : Nat) : List String → List (Outcome × ByteArray)
  | [] => []
  | source :: rest =>
    let (outcome, s') := s.run fuel source
    (outcome, s'.machine.outputFrom s.machine.sink.written.size) :: s'.steps fuel rest

theorem steps_cons (s : Session) (fuel : Nat) (source : String) (rest : List String) :
    s.steps fuel (source :: rest) = ((s.run fuel source).1,
      (s.run fuel source).2.machine.outputFrom s.machine.sink.written.size) ::
        (s.run fuel source).2.steps fuel rest := rfl

theorem steps_pair (s : Session) (fuel : Nat) (source source' : String) :
    s.steps fuel [source, source'] = [((s.run fuel source).1,
        (s.run fuel source).2.machine.outputFrom s.machine.sink.written.size),
      (((s.run fuel source).2.run fuel source').1,
        ((s.run fuel source).2.run fuel source').2.machine.outputFrom
          (s.run fuel source).2.machine.sink.written.size)] := rfl

/-- Two sessions in step go through the same texts in the same way. -/
theorem InStep.steps_eq {s s' : Session} (h : InStep (fun _ _ => True) .plain text s s')
    (fuel : Nat) (sources : List String) : s'.steps fuel sources = s.steps fuel sources := by
  induction sources generalizing s s' with
  | nil => rfl
  | cons source rest ih =>
    obtain ⟨houtcome, hstep, -⟩ := h.run fuel source fun _ _ _ => trivial
    have houtput : (s'.run fuel source).2.machine.outputFrom s'.machine.sink.written.size =
        (s.run fuel source).2.machine.outputFrom s.machine.sink.written.size := by
      rw [Machine.outputFrom, Machine.outputFrom, hstep.sink_eq, h.sink_eq]
    rw [steps_cons, steps_cons, houtcome, houtput, ih hstep]

end Session

end Treewalk
