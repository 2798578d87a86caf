import Mathlib.Order.Bounds.Basic
import Treewalk.Proofs.Grammar.Positions

/-!
# Where reading goes on after a fault

Whatever is being read when a fault is met, it is given up with the token at fault as the next one:
nothing is taken on the way out of the phrases around it. So the position of the fault is the one
from which tokens are skipped. The token at fault is dropped, and of the positions behind it the
first statement boundary is where reading goes on.

## Main definitions

* `Cursor.At` — a cursor that stands at a position of a token list
* `Advances` — how a reading leaves the tokens ahead
* `IsBoundary` — the positions at which reading may go on

## Main results

* `Script.advances` — readings move forward, and are given up at the next token only
* `declaration_resumes` — an abandoned declaration ends at the first boundary behind its fault
-/

namespace Treewalk.Grammar

variable {α : Type}

/-! ### Moving forward -/

/-- From the first cursor on, tokens may have been dropped to come to the second one. -/
structure Cursor.LeadsTo (c d : Cursor) : Prop where
  ahead : d.ahead <:+ c.ahead
  finish : d.finish = c.finish

theorem Cursor.LeadsTo.refl (c : Cursor) : c.LeadsTo c := ⟨List.suffix_rfl, rfl⟩

theorem Cursor.LeadsTo.trans {c d e : Cursor} (h : c.LeadsTo d) (h' : d.LeadsTo e) : c.LeadsTo e :=
  ⟨h'.ahead.trans h.ahead, h'.finish.trans h.finish⟩

/-- The cursor at which a reading ends. -/
def endOf : EStateM.Result Stop Cursor α → Cursor
  | .ok _ d | .error _ d => d

/-- The reading has moved forward, and if it met a fault, the token at fault is the next one. -/
def Advances (c : Cursor) : EStateM.Result Stop Cursor α → Prop
  | .ok _ d | .error .exhausted d => c.LeadsTo d
  | .error (.fault anchor _) d => c.LeadsTo d ∧ anchor = d.next

theorem Advances.leadsTo {c : Cursor} {result : EStateM.Result Stop Cursor α}
    (h : Advances c result) : c.LeadsTo (endOf result) := by
  obtain ⟨a, d⟩ | ⟨⟨anchor, cause⟩ | _, d⟩ := result
  · exact h
  · exact h.1
  · exact h

theorem Advances.mono {c c' : Cursor} {result : EStateM.Result Stop Cursor α} (hc : c.LeadsTo c')
    (h : Advances c' result) : Advances c result := by
  obtain ⟨a, d⟩ | ⟨⟨anchor, cause⟩ | _, d⟩ := result
  · exact hc.trans h
  · exact ⟨hc.trans h.1, h.2⟩
  · exact hc.trans h

theorem fromBoundary_suffix (tokens : List Token) : fromBoundary tokens <:+ tokens := by
  induction tokens with
  | nil => exact List.suffix_rfl
  | cons t rest ih =>
    rw [fromBoundary]
    split
    · exact List.suffix_rfl
    · split
      · exact List.suffix_cons t rest
      · exact ih.trans (List.suffix_cons t rest)

theorem resync_suffix (tokens : List Token) : resync tokens <:+ tokens := by
  cases tokens with
  | nil => exact List.suffix_rfl
  | cons t rest =>
    rw [resync]
    split
    · exact List.suffix_cons t rest
    · exact (fromBoundary_suffix rest).trans (List.suffix_cons t rest)

/-- Every step moves forward, and the only step that gives up at a token does so at the next one. -/
theorem Script.advances (script : Script α) (c : Cursor) : Advances c (script.read c) := by
  induction script generalizing c with
  | bind first next ihfirst ihnext =>
    have hfirst := ihfirst c
    rw [Script.read]
    cases hr : first.read c with
    | ok a d =>
      rw [hr] at hfirst
      rw [bind_ok hr]
      exact (ihnext a d).mono hfirst
    | error stop d =>
      rw [hr] at hfirst
      rw [bind_error hr]
      cases stop with
      | fault anchor cause => exact hfirst
      | exhausted => exact hfirst
  | fail cause h => exact ⟨.refl c, rfl⟩
  | takeIf? p =>
    rw [Script.read, Grammar.takeIf?]
    split
    · next t rest hahead =>
      split
      · exact ⟨hahead ▸ List.suffix_cons t rest, rfl⟩
      · exact .refl c
    · exact .refl c
  | recover script ih =>
    have hscript := ih c
    rw [Script.read, Grammar.recover]
    cases hr : script.read c with
    | ok a d =>
      rw [hr] at hscript
      exact hscript
    | error stop d =>
      rw [hr] at hscript
      cases stop with
      | fault anchor cause =>
        exact ⟨(resync_suffix d.ahead).trans hscript.1.ahead, hscript.1.finish⟩
      | exhausted => exact hscript
  | _ => exact ⟨List.suffix_rfl, rfl⟩

/-! ### Positions -/

/-- The tokens in front of the first end of input. -/
def front (tokens : List Token) : List Token := tokens.takeWhile (!·.isEnd)

/-- The cursor stands at a position of the tokens. -/
structure Cursor.At (tokens : List Token) (i : Nat) (c : Cursor) : Prop where
  le : i ≤ (front tokens).length
  ahead : c.ahead = (front tokens).drop i
  finish : c.finish = finishOf tokens

namespace Cursor.At

variable {tokens : List Token} {i : Nat} {c d : Cursor}

theorem start (tokens : List Token) (firstId : NodeId) :
    (Cursor.start tokens firstId).At tokens 0 :=
  ⟨Nat.zero_le _, rfl, rfl⟩

/-- Whatever a cursor leads to stands at a later position, or at the same one. -/
theorem leadsTo (h : c.At tokens i) (hd : c.LeadsTo d) : ∃ j, i ≤ j ∧ d.At tokens j := by
  obtain ⟨taken, htaken⟩ := hd.ahead
  have hahead : (front tokens).drop i = taken ++ d.ahead := by rw [htaken, h.ahead]
  have hlength : (front tokens).length - i = taken.length + d.ahead.length := by
    rw [← List.length_drop, hahead, List.length_append]
  refine ⟨i + taken.length, Nat.le_add_right _ _, ?_, ?_, hd.finish.trans h.finish⟩
  · have hle := h.le
    omega
  · rw [← List.drop_drop, hahead, List.drop_left]

theorem unique {j : Nat} (h : c.At tokens i) (h' : c.At tokens j) : i = j := by
  have hi := h.le
  have hj := h'.le
  have hlength := congrArg List.length (h.ahead.symm.trans h'.ahead)
  rw [List.length_drop, List.length_drop] at hlength
  omega

/-- The next token is the one at the position. -/
theorem getElem?_eq (h : c.At tokens i) : (withEnd tokens)[i]? = some c.next := by
  have hnext := (layout_withEnd tokens).next_eq (p := ⟨i, c.nextId, c.faults, []⟩) h.le
  rw [hnext, Cursor.next, Cursor.next, h.ahead, h.finish]
  rfl

end Cursor.At

/-! ### Boundaries -/

/-- Reading may go on at the position: behind a semicolon, at one of the eight words that start a
statement (`startsStatement_iff`), or at the end of the input. -/
def IsBoundary (tokens : List Token) (r : Nat) : Prop :=
  tokens[r - 1]?.any (·.isSymbol .semicolon) ∨ tokens[r]?.any startsStatement ∨
    tokens[r]?.any Token.isEnd

instance (tokens : List Token) (r : Nat) : Decidable (IsBoundary tokens r) :=
  inferInstanceAs (Decidable (_ ∨ _ ∨ _))

/-- Where reading goes on after a fault at the position `e`: at the first boundary behind it, or at
the end of the input if the fault was met there. -/
def Resumes (tokens : List Token) (e r : Nat) : Prop :=
  if tokens[e]?.any Token.isEnd then r = e else IsLeast {r | e < r ∧ IsBoundary tokens r} r

theorem Resumes.unique {tokens : List Token} {e r r' : Nat} (h : Resumes tokens e r)
    (h' : Resumes tokens e r') : r = r' := by
  rw [Resumes] at h h'
  split at h
  · next hend =>
    rw [if_pos hend] at h'
    rw [h, h']
  · next hend =>
    rw [if_neg hend] at h'
    exact h.unique h'

/-- A token that is skipped, and is not the one at fault, starts no statement, and it is no
semicolon unless it is the last one. -/
theorem Resumes.skipped {tokens : List Token} {e r j : Nat} {t : Token} (h : Resumes tokens e r)
    (he : e < j) (hr : j < r) (ht : tokens[j]? = some t) :
    startsStatement t = false ∧ (j + 1 < r → t.isSymbol .semicolon = false) := by
  rw [Resumes] at h
  split at h
  · omega
  · have hnone {k : Nat} (hk : e < k) (hkr : k < r) : ¬IsBoundary tokens k :=
      fun hboundary => Nat.not_lt.2 (h.2 ⟨hk, hboundary⟩) hkr
    refine ⟨?_, fun hlast => ?_⟩
    · rw [← Bool.not_eq_true]
      exact fun hstart => hnone he hr (.inr (.inl (by rw [ht]; exact hstart)))
    · rw [← Bool.not_eq_true]
      refine fun hsemicolon => hnone (he.trans j.lt_succ_self) hlast (.inl ?_)
      rw [Nat.succ_sub_one, ht]
      exact hsemicolon

namespace Layout

variable {tokens front : List Token} {finish : Token}

/-- What is left from the first boundary on stands at the first boundary behind a token that is no
semicolon. -/
theorem exists_fromBoundary (h : Layout tokens front finish) {i : Nat} (hi : i < front.length)
    (hprev : tokens[i]?.any (·.isSymbol .semicolon) = false) :
    ∃ r ≤ front.length, fromBoundary (front.drop (i + 1)) = front.drop r ∧
      IsLeast {r | i < r ∧ IsBoundary tokens r} r := by
  obtain ⟨hlast, hdrop, hget⟩ | ⟨t, hlt, hdrop, hget, hend⟩ := h.ahead (Nat.succ_le_of_lt hi)
  · refine ⟨i + 1, hi, by rw [hdrop]; rfl, ⟨i.lt_succ_self, .inr (.inr ?_)⟩, fun r hr => hr.1⟩
    rw [hget]
    exact h.finish
  · rw [hdrop, fromBoundary]
    by_cases hstart : startsStatement t
    · rw [if_pos hstart, ← hdrop]
      refine ⟨i + 1, hi, rfl, ⟨i.lt_succ_self, .inr (.inl ?_)⟩, fun r hr => hr.1⟩
      rw [hget]
      exact hstart
    · rw [if_neg hstart]
      -- the next position is no boundary, so the first one is behind it
      have hnext {r : Nat} (hr : i < r ∧ IsBoundary tokens r) : i + 1 < r := by
        refine Nat.lt_of_le_of_ne hr.1 ?_
        rintro rfl
        obtain hsemicolon | hstarts | hends := hr.2
        · exact Bool.false_ne_true (hprev.symm.trans hsemicolon)
        · rw [hget] at hstarts
          exact hstart hstarts
        · rw [hget] at hends
          exact Bool.false_ne_true (hend.symm.trans hends)
      by_cases hsemicolon : t.isSymbol .semicolon
      · rw [if_pos hsemicolon]
        refine ⟨i + 2, hlt, rfl, ⟨by omega, .inl ?_⟩, fun r hr => hnext hr⟩
        change tokens[i + 1]?.any _ = true
        rw [hget]
        exact hsemicolon
      · rw [if_neg hsemicolon]
        obtain ⟨r, hle, heq, hleast⟩ := h.exists_fromBoundary hlt (by simpa [hget] using hsemicolon)
        refine ⟨r, hle, heq, ⟨(Nat.lt_succ_self i).trans hleast.1.1, hleast.1.2⟩, fun r' hr' => ?_⟩
        exact hleast.2 ⟨hnext hr', hr'.2⟩
termination_by front.length - i

/-- What is left after a fault stands where reading goes on. -/
theorem exists_resync (h : Layout tokens front finish) {e : Nat} (he : e ≤ front.length) :
    ∃ r ≤ front.length, resync (front.drop e) = front.drop r ∧ Resumes tokens e r := by
  obtain ⟨rfl, hdrop, hget⟩ | ⟨t, hlt, hdrop, hget, hend⟩ := h.ahead he
  · have hfinish : tokens[front.length]?.any Token.isEnd := by
      rw [hget]
      exact h.finish
    refine ⟨front.length, le_rfl, by rw [hdrop]; rfl, ?_⟩
    rw [Resumes, if_pos hfinish]
  · have hother : ¬tokens[e]?.any Token.isEnd := by
      rw [hget]
      exact ne_true_of_eq_false hend
    simp only [Resumes, if_neg hother]
    rw [hdrop, resync]
    by_cases hsemicolon : t.isSymbol .semicolon
    · rw [if_pos hsemicolon]
      refine ⟨e + 1, hlt, rfl, ⟨e.lt_succ_self, .inl ?_⟩, fun r hr => hr.1⟩
      rw [Nat.add_sub_cancel, hget]
      exact hsemicolon
    · rw [if_neg hsemicolon]
      exact h.exists_fromBoundary hlt (by simpa [hget] using hsemicolon)

end Layout

/-! ### Abandoned declarations -/

/-- **Reading goes on at the first boundary behind the token at fault.** A declaration that begins
at a position of a token list, which is not empty, and is abandoned, is so with its token at fault
at the position `e` that reading has come to. It ends at the position `r` where reading goes on
after that, and skipping tokens by position ends there too. No token is skipped that starts a
statement, but for the one at fault, and no semicolon in front of another token; and nothing that is
read from there on comes back to the token at fault. -/
theorem declaration_resumes (tokens : List Token) (fuel : Nat) {i : Nat} {c d : Cursor}
    {anchor : Token} {cause : GrammarFault} (hfront : front tokens ≠ []) (hc : c.At tokens i)
    (hfault : attempt fuel c = .error (.fault anchor cause) d) :
    ∃ e r behind, i ≤ e ∧ d.At tokens e ∧ (withEnd tokens)[e]? = some anchor ∧
      declaration (fuel + 1) c = .ok none behind ∧ behind.At tokens r ∧
      behind.faults = .grammar anchor cause :: d.faults ∧
      (∀ nextId faults anchors,
        Indexing.synchronize (withEnd tokens) ⟨e, nextId, faults, anchors⟩ =
          .ok () ⟨r, nextId, faults, anchors⟩) ∧
      Resumes (withEnd tokens) e r ∧
      (∀ j t, e < j → j < r → (withEnd tokens)[j]? = some t →
        startsStatement t = false ∧ (j + 1 < r → t.isSymbol .semicolon = false)) ∧
      ∀ {β : Type} (script : Script β), ∃ j, r ≤ j ∧ (endOf (script.read behind)).At tokens j := by
  obtain ⟨script, -, hscript⟩ := (statementScripts fuel).attempt
  have hadvances := script.advances c
  rw [hscript, hfault] at hadvances
  obtain ⟨hleads, rfl⟩ := hadvances
  obtain ⟨e, hie, hd⟩ := hc.leadsTo hleads
  have hlayout : Layout (withEnd tokens) (front tokens) (finishOf tokens) := layout_withEnd tokens
  obtain ⟨r, hr, hresync, hresumes⟩ := hlayout.exists_resync hd.le
  have hbehind : (⟨resync d.ahead, d.finish, d.nextId, .grammar d.next cause :: d.faults⟩ :
      Cursor).At tokens r := ⟨hr, by rw [hd.ahead]; exact hresync, hd.finish⟩
  refine ⟨e, r, _, hie, hd, hd.getElem?_eq, ?_, hbehind, rfl, fun nextId faults anchors => ?_,
    hresumes, fun j t hj hjr ht => hresumes.skipped hj hjr ht, fun script => ?_⟩
  · rw [declaration_succ, recover, hfault]
  · obtain ⟨q, -, hq, hsync, hdrop⟩ :=
      hlayout.synchronize (p := ⟨e, nextId, faults, anchors⟩) hfront hd.le
    dsimp only at hdrop
    -- both positions leave the same tokens ahead
    have hlength := congrArg List.length (hdrop.trans hresync)
    rw [List.length_drop, List.length_drop] at hlength
    obtain rfl : q = r := by omega
    exact hsync
  · exact hbehind.leadsTo (script.advances _).leadsTo

/-- The tokens of `print 1 var x; print 2;`. The first statement is abandoned at `var`, with which a
statement could begin. -/
def misplacedTokens : List Token :=
  [⟨.keyword .print, "print", 1⟩, ⟨.number 1, "1", 1⟩, ⟨.keyword .var, "var", 1⟩,
    ⟨.identifier, "x", 1⟩, ⟨.symbol .semicolon, ";", 1⟩, ⟨.keyword .print, "print", 1⟩,
    ⟨.number 2, "2", 1⟩, ⟨.symbol .semicolon, ";", 1⟩]

theorem resumes_misplacedTokens : Resumes (withEnd misplacedTokens) 2 5 := by
  refine ⟨⟨by decide, by decide⟩, fun r hr => ?_⟩
  by_contra hlt
  have hlow : 2 < r := hr.1
  obtain rfl | rfl : r = 3 ∨ r = 4 := by omega
  · exact absurd hr.2 (by decide)
  · exact absurd hr.2 (by decide)

theorem declaration_resumes_misplaced :
    ∃ d, attempt 20 (.start misplacedTokens 0) =
        .error (.fault ⟨.keyword .var, "var", 1⟩ (.missingSymbol .semicolon .afterPrinted)) d ∧
      ∃ behind, declaration 21 (.start misplacedTokens 0) = .ok none behind ∧
        behind.At misplacedTokens 5 := by
  have hfault : attempt 20 (.start misplacedTokens 0) =
      .error (.fault ⟨.keyword .var, "var", 1⟩ (.missingSymbol .semicolon .afterPrinted))
        ⟨misplacedTokens.drop 2, ⟨.endOfInput, "", 1⟩, 0, []⟩ := rfl
  obtain ⟨e, r, behind, -, hd, -, hbehind, hr, -, -, hresumes, -⟩ :=
    declaration_resumes misplacedTokens 20 (by decide) (.start misplacedTokens 0) hfault
  obtain rfl := hd.unique (j := 2) ⟨by decide, rfl, rfl⟩
  obtain rfl := hresumes.unique resumes_misplacedTokens
  exact ⟨_, hfault, behind, hbehind, hr⟩

end Treewalk.Grammar
