import Treewalk.Proofs.Evaluation.Course

/-!
# What comes after a part

When a part of a moment has come to an end, the rest of the moment goes on with the machine that the
part left. So whatever evaluation keeps to is kept to from the end of any part of a run to the end
of the run.

## Main definitions

* `Machine.Later` — a later machine, between two programs

## Main results

* `Situation.Leads.grows_outcome` — from the end of a part to the end of the moment it is part of
* `Situation.OfRun.grows_outcome` — from the end of any part of a run to the end of the run
* `Machine.Later.leads` — from run to run
-/

namespace Treewalk

open Eval Discipline

variable {α β : Type} {D : Discipline}

theorem Ended.machine_outcome (ended : Ended α) (values : α → List Value) :
    (ended.outcome values).2 = ended.machine := by
  cases ended <;> rfl

namespace Discipline

variable {m : Machine}

theorem Keeps.grows {c : Eval α} {Q : Machine → α → Prop} (h : D.Keeps m c Q) (hm : D.IsSound m) :
    D.Grows m (Ended.machine (c m)) :=
  (h hm).leads.grows

variable [D.Lawful]

/-- The second of two computations begins with the machine that the first one leaves. -/
theorem grows_bind {c : Eval α} {f : α → Eval β}
    (h : ∀ a m₁, c m = .ok a m₁ → D.Grows m₁ (Ended.machine (f a m₁))) :
    D.Grows (Ended.machine (c m)) (Ended.machine ((c >>= f) m)) := by
  cases hc : c m with
  | error halt m₁ =>
    rw [bind_eq_error hc]
    exact Lawful.refl m₁
  | ok a m₁ =>
    rw [bind_eq_of_ok hc]
    exact h a m₁ hc

theorem grows_inFrame {c : Eval α} {frame : FrameId} :
    D.Grows (Ended.machine (c { m with current := frame }))
      (Ended.machine (inFrame frame c m)) := by
  rw [inFrame_eq_withCurrent, Ended.machine_withCurrent]
  exact Lawful.grows_of_eq rfl rfl

end Discipline

variable [D.Lawful] {s s' : Situation}

/-- From the end of a part to the end of the moment it is part of. -/
theorem Situation.Leads.grows_outcome (h : s.Leads s') (hs : D.Holds s) :
    D.Grows s'.moment.outcome.2 s.moment.outcome.2 := by
  have hm := hs.machine
  have hwrites := hs.writes
  have rest {α : Type} {m₁ : Machine} {c : Eval α} (hm₁ : D.IsSound m₁)
      (h : D.Keeps m₁ c fun _ _ => True) : D.Grows m₁ (Ended.machine (c m₁)) := h.grows hm₁
  cases h with simp only [Moment.outcome, Ended.machine_outcome]
  -- nothing is left to do
  | group | loop => exact Lawful.refl _
  | rightLogical hleft hdecides =>
    rw [Eval.evaluate, bind_eq_of_ok hleft, if_neg (by rw [hdecides]; nofun)]
    exact Lawful.refl _
  | call hcallee harguments =>
    rw [Eval.evaluate, bind_eq_of_ok hcallee, bind_eq_of_ok harguments]
    exact Lawful.refl _
  | invoke harity =>
    rw [Eval.call, checkArity, if_pos harity]
    exact Lawful.refl _
  | @thenBranch _ _ _ _ other _ _ _ hcondition hv =>
    cases other <;>
    · rw [Eval.execute, bind_eq_of_ok hcondition, if_pos hv]
      exact Lawful.refl _
  | elseBranch hcondition hv =>
    rw [Eval.execute, bind_eq_of_ok hcondition, if_neg (by rw [hv]; nofun)]
    exact Lawful.refl _
  | statements hfirst =>
    rw [Eval.executeAll, bind_eq_of_ok hfirst]
    exact Lawful.refl _
  | again hcondition hv hbody =>
    rw [Eval.executeWhile, bind_eq_of_ok hcondition, if_pos hv, bind_eq_of_ok hbody]
    exact Lawful.refl _
  | topRest hfirst =>
    rw [Eval.executeProgram, bind_eq_of_ok hfirst]
    exact Lawful.refl _
  -- the rest of an expression
  | operand =>
    refine grows_bind fun v m₁ h => rest (evaluated hm hwrites.2 h).1 ?_
    exact .orFailAt _ fun _ _ => trivial
  | left =>
    refine grows_bind fun v m₁ h => rest (evaluated hm hwrites.2.1 h).1 ?_
    exact ((D.keepsAll _).evaluate m₁ _ hwrites.2.2).bind fun _ _ _ _ =>
      .orFailAt _ fun _ _ => trivial
  | right hleft =>
    rw [Eval.evaluate, bind_eq_of_ok hleft]
    obtain ⟨hm₁, -, -⟩ := evaluated hm hwrites.2.1 hleft
    refine grows_bind fun w m₂ h => rest (evaluated hm₁ hwrites.2.2 h).1 ?_
    exact .orFailAt _ fun _ _ => trivial
  | leftLogical =>
    refine grows_bind fun v m₁ h => ?_
    obtain ⟨hm₁, -, -⟩ := evaluated hm hwrites.2.1 h
    split
    · exact Lawful.refl m₁
    · exact ((D.keepsAll _).evaluate m₁ _ hwrites.2.2).grows hm₁
  | assigned =>
    refine grows_bind fun v m₁ h => ?_
    obtain ⟨hm₁, -, hv⟩ := evaluated hm hwrites.2 h
    exact rest hm₁ ((Keeps.assign hwrites.1 hv).bind fun _ _ _ _ => .pure trivial)
  | callee =>
    refine grows_bind fun v m₁ h => ?_
    obtain ⟨hm₁, -, hv⟩ := evaluated hm hwrites.2.1 h
    exact (((D.keepsAll _).evaluateAll m₁ _ hwrites.2.2).bind fun values m₂ hgrows hvalues =>
      (D.keepsAll _).call m₂ v _ values (Lawful.value_mono hv hgrows) hvalues).grows hm₁
  | arguments hcallee =>
    rw [Eval.evaluate, bind_eq_of_ok hcallee]
    obtain ⟨hm₁, -, hv⟩ := evaluated hm hwrites.2.1 hcallee
    refine grows_bind fun values m₂ h => ?_
    obtain ⟨hm₂, hgrows, hvalues⟩ := evaluatedAll hm₁ hwrites.2.2 h
    exact ((D.keepsAll _).call m₂ _ _ values (Lawful.value_mono hv hgrows) hvalues).grows hm₂
  | object =>
    refine grows_bind fun v m₁ h => ?_
    obtain ⟨hm₁, -, hv⟩ := evaluated hm hwrites.2 h
    split
    · exact (Keeps.getProperty hv _).grows hm₁
    · exact Lawful.refl m₁
  | target =>
    refine grows_bind fun v m₁ h => ?_
    obtain ⟨hm₁, -, -⟩ := evaluated hm hwrites.2.1 h
    split
    · exact rest hm₁ (((D.keepsAll _).evaluate m₁ _ hwrites.2.2).bind fun w m₂ _ hw =>
        (Keeps.setProperty _ _ hw).bind fun _ _ _ _ => .pure trivial)
    · exact Lawful.refl m₁
  | field hobject =>
    rw [Eval.evaluate, bind_eq_of_ok hobject]
    obtain ⟨hm₁, -, -⟩ := evaluated hm hwrites.2.1 hobject
    refine grows_bind fun w m₂ h => ?_
    obtain ⟨hm₂, -, hw⟩ := evaluated hm₁ hwrites.2.2 h
    exact rest hm₂ ((Keeps.setProperty _ _ hw).bind fun _ _ _ _ => .pure trivial)
  | first =>
    refine grows_bind fun v m₁ h => rest (evaluated hm hwrites.1 h).1 ?_
    exact ((D.keepsAll _).evaluateAll m₁ _ hwrites.2).bind fun _ _ _ _ => .pure trivial
  | others he =>
    rw [Eval.evaluateAll, bind_eq_of_ok he]
    exact grows_bind fun _ m₂ _ => Lawful.refl m₂
  -- the rest of a call
  | construct harity hobject hinitializer hbound =>
    rw [Eval.call, checkArity, if_pos harity, pure_bind, bind_eq_of_ok hobject, hinitializer]
    dsimp only
    rw [bind_eq_of_ok hbound]
    exact grows_bind fun _ m₃ _ => Lawful.refl m₃
  | body hframe =>
    have hclosure := hs.closures _ (.head _)
    have hbody := (Routine.writes_iff.1 (Lawful.closure_writes hclosure)).2
    obtain ⟨hm₁, -, hlt⟩ := (Keeps.callFrame hclosure hs.values).of_ok hm hframe
    rw [invoke_succ_eq, bind_eq_of_ok hframe]
    refine Lawful.trans grows_inFrame (grows_bind fun flow m₂ h => ?_)
    obtain ⟨hm₂, -, -⟩ := ((D.keepsAll _).inFrame_executeAll hlt hbody).of_ok hm₁ h
    split
    · exact (Keeps.receiverOf _ _).grows hm₂
    · exact Lawful.refl m₂
  -- the rest of a statement
  | expression | returned => exact grows_bind fun _ m₁ _ => Lawful.refl m₁
  | print =>
    refine grows_bind fun v m₁ h => rest (evaluated hm hwrites h).1 ?_
    exact (Keeps.printLine v.text).bind fun _ _ _ _ => .pure trivial
  | definition =>
    refine grows_bind fun v m₁ h => ?_
    obtain ⟨hm₁, -, hv⟩ := evaluated hm hwrites.2 h
    exact rest hm₁ ((Keeps.define hwrites.1 hv).bind fun _ _ _ _ => .pure trivial)
  | block hframe =>
    rw [Eval.execute, get_bind_apply, bind_eq_of_ok hframe]
    exact grows_inFrame
  | condition =>
    obtain ⟨hcode, hbranch, hother⟩ := Stmt.writes_if_iff.1 hwrites
    refine grows_bind fun v m₁ h => ?_
    exact ((D.keepsAll _).branches m₁ v _ hbranch hother).grows (evaluated hm hcode h).1
  | statement =>
    refine grows_bind fun flow m₁ h => ?_
    obtain ⟨hm₁, -, hflow⟩ := executed hm hwrites.1 h
    exact (KeepsAll.next m₁ hflow ((D.keepsAll _).executeAll m₁ _ hwrites.2)).grows hm₁
  | check =>
    refine grows_bind fun v m₁ h => ?_
    obtain ⟨hm₁, -, -⟩ := evaluated hm hwrites.1 h
    split
    · exact (((D.keepsAll _).execute m₁ _ hwrites.2).bind fun flow m₂ _ hflow =>
        KeepsAll.next m₂ hflow ((D.keepsAll _).executeWhile m₂ _ _ hwrites.1 hwrites.2)).grows hm₁
    · exact Lawful.refl m₁
  | round hcondition hv =>
    rw [Eval.executeWhile, bind_eq_of_ok hcondition, if_pos hv]
    obtain ⟨hm₁, -, -⟩ := evaluated hm hwrites.1 hcondition
    refine grows_bind fun flow m₂ h => ?_
    obtain ⟨hm₂, -, hflow⟩ := executed hm₁ hwrites.2 h
    exact (KeepsAll.next m₂ hflow
      ((D.keepsAll _).executeWhile m₂ _ _ hwrites.1 hwrites.2)).grows hm₂
  | top =>
    refine grows_bind fun _ m₁ h => ?_
    exact (Keeps.executeProgram _ m₁ hwrites.2).grows (executed hm hwrites.1 h).1

/-- From the end of any part of a run to the end of the run. -/
theorem Situation.OfRun.grows_outcome {fuel : Nat} {program : List Stmt} {m : Machine}
    (h : s.OfRun fuel program m) (hm : D.IsSound m)
    (hprogram : Stmt.WritesAll D.MayWrite program) :
    D.Grows s.moment.outcome.2 (Ended.machine (interpret fuel program m)) := by
  induction h with
  | refl =>
    rw [Moment.outcome, Ended.machine_outcome]
    exact grows_bind fun _ m₁ h => Keeps.flushOutput.grows
      ((Keeps.executeProgram fuel m hprogram).of_ok hm h).1
  | tail hs hleads ih =>
    have hholds := (Situation.OfRun.keeps hs hm hprogram).1
    exact Lawful.trans (hleads.grows_outcome hholds) ih

/-- From a machine between two programs to a later one. The programs in between have the property,
and between them the machine may get any depth table. -/
inductive Machine.Later (P : List Stmt → Prop) (m : Machine) : Machine → Prop
  | refl : Later P m m
  | withDepths {m' : Machine} (h : Later P m m') (depths : DepthTable) :
      Later P m { m' with depths }
  | interpret {m' : Machine} (h : Later P m m') (fuel : Nat) {program : List Stmt}
      (hprogram : P program) : Later P m (Ended.machine (Eval.interpret fuel program m'))

theorem Machine.Later.trans {P : List Stmt → Prop} {m m₁ m₂ : Machine} (h : Machine.Later P m m₁)
    (h' : Machine.Later P m₁ m₂) : Machine.Later P m m₂ := by
  induction h' with
  | refl => exact h
  | withDepths _ depths ih => exact ih.withDepths depths
  | interpret _ fuel hprogram ih => exact ih.interpret fuel hprogram

theorem Machine.Later.idle {P : List Stmt → Prop} {m m' : Machine} (h : Machine.Later P m m')
    (hm : m.Idle) : m'.Idle := by
  induction h with
  | refl => exact hm
  | withDepths _ depths ih => exact ih.withDepths depths
  | interpret _ fuel _ ih => exact ih.interpret fuel _

theorem Machine.Later.leads {P : List Stmt → Prop}
    (hP : ∀ program, P program → Stmt.WritesAll D.MayWrite program) {m m' : Machine}
    (h : Machine.Later P m m') (hm : D.IsSound m) : D.Leads m m' := by
  induction h with
  | refl => exact ⟨hm, Lawful.refl m⟩
  | withDepths _ depths ih =>
    exact ⟨Lawful.of_eq ih.sound rfl rfl (Lawful.current ih.sound),
      Lawful.trans ih.grows (Lawful.grows_of_eq rfl rfl)⟩
  | interpret _ fuel hprogram ih =>
    have hleads := (Keeps.interpret fuel _ (hP _ hprogram) ih.sound).leads
    exact ⟨hleads.sound, Lawful.trans ih.grows hleads.grows⟩

end Treewalk
