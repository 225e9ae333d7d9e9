import SelectorPath.Proofs.Selector.Steps
import SelectorPath.Proofs.Token.Written

/-!
# Runs of the reader

What holds of every state that the reader comes to is shown one token at a time. The tokens of a
text end with `eof`, and a reader that accepts it has finished a selector: no accepted text is
empty.

## Main definitions

* `Reader.Leads` — a property of the state that an outcome is, if it is one
* `Lexer.Ending` — the last token is `eof` and no other is

## Main results

* `Reader.leads_run` — what every step keeps holds at the end of a run
* `Selector.parse_ne_nil` — an accepted text has at least one selector
-/

namespace SelectorPath

namespace Lexer

/-- The last token is `eof`, and no other is. -/
def Ending (tokens : List Token) : Prop :=
  ∃ before last, tokens = before ++ [last] ∧ last.kind = .eof ∧ ∀ token ∈ before, token.kind ≠ .eof

theorem ending_tokensFrom {pos : Nat} {cs : List Char} {tokens : List Token}
    (read : tokensFrom pos cs = .ok tokens) : Ending tokens := by
  fun_induction tokensFrom pos cs generalizing tokens with
  | case1 pos =>
    obtain rfl := Except.ok.inj read
    exact ⟨[], _, rfl, rfl, by simp⟩
  | case2 => simp at read
  | case3 =>
    rename_i ih
    exact ih read
  | case4 =>
    rename_i others behind lexeme _ ih
    obtain rfl := Except.ok.inj read
    obtain ⟨before, last, split, eof, inside⟩ := ih behind
    refine ⟨_ :: before, last, by rw [split, List.cons_append], eof, ?_⟩
    intro token member
    rcases List.mem_cons.mp member with rfl | member
    · exact (readsToken lexeme).kind_ne_eof
    · exact inside token member
  | case5 => simp at read

end Lexer

namespace Selector

namespace Reader

/-- Whatever state the outcome is has the property. -/
def Leads (p : State → Prop) (outcome : Outcome) : Prop := ∀ next, outcome = .ok next → p next

/-- What every step keeps holds at the end of a run. -/
theorem leads_run {p : State → Prop} (keeps : ∀ state token, p state → Leads p (step state token))
    {state : State} (start : p state) (tokens : List Token) : Leads p (run state tokens) := by
  induction tokens generalizing state with
  | nil =>
    intro next eq
    obtain rfl := Except.ok.inj eq
    exact start
  | cons token rest ih =>
    intro next eq
    unfold run at eq
    split at eq
    · rename_i middle here
      exact ih (keeps state token start middle here) next eq
    · simp at eq

/-! ### The end of the input -/

/-- At the end of the input at least one selector is finished. -/
def HasFinished (state : State) : Prop := state.mode = .done → state.finished ≠ []

/-- The token leads to a state that has finished a selector if it is at the end, and to the end if
it is `eof`. -/
structure Closes (token : Token) (next : State) : Prop where
  done : token.kind = .eof → next.mode = .done
  finished : HasFinished next

section Closes

variable {state next : State} {mode : Mode} {token : Token}

theorem closes_of_reading (inside : IsPart token) (reading : next.mode ≠ .done) :
    Closes token next :=
  ⟨fun eof => absurd eof inside.kind_ne_eof, fun done => absurd done reading⟩

theorem ModeMoves.closes {after : Mode} (moves : ModeMoves token mode after) :
    Closes token (state.setMode after) := by
  refine closes_of_reading moves.isPart fun done => ?_
  obtain ⟨rfl, skips⟩ | inside := moves.inCompound
  · cases skips <;> simp at done
  · rw [State.setMode_mode] at done
    rw [done] at inside
    exact inside

/-- A move keeps that a selector is finished at the end, and `eof` leads to the end. -/
theorem closes_of_moves (moves : Moves state mode token next)
    (kept : mode = .done → state.finished ≠ []) : Closes token next := by
  induction moves with
  | turn moves => exact moves.closes
  | openRelation sign | nextAlternative sign =>
    exact closes_of_reading (isPart_of_isDelim sign (by decide)) (by simp)
  | opens opens => exact closes_of_reading opens.isPart (by simp [State.openFrame])
  | closes sign =>
    exact closes_of_reading (isPart_of_isDelim sign (by decide)) (by simp [State.closeFrame])
  | combine sign => exact closes_of_reading (isPart_of_sign sign) (by simp [State.combine])
  | finish => exact ⟨fun eof => by simp [State.finish, eof], fun _ => by simp [State.finish]⟩
  | done => exact ⟨fun _ => rfl, fun _ => kept rfl⟩
  | defers defers _ ih =>
    -- a token is not looked at again at the end
    refine ih fun done => ?_
    subst done
    cases defers

end Closes

/-- One token keeps that a selector is finished at the end, and `eof` leads to the end. -/
theorem closes_step {state : State} (kept : HasFinished state) (token : Token) :
    Leads (Closes token) (step state token) :=
  fun _ read => closes_of_moves (moves_of_step read) kept

end Reader

/-- A text that is accepted has at least one selector. -/
theorem parse_ne_nil {text : String} {selectors : List Selector}
    (accepted : parse text = .ok selectors) : selectors ≠ [] := by
  unfold parse at accepted
  split at accepted
  · rename_i tokens lexed
    obtain ⟨before, last, rfl, eof, _⟩ := Lexer.ending_tokensFrom lexed
    unfold ofTokens at accepted
    rw [Reader.run_append] at accepted
    split at accepted
    · rename_i state ran
      obtain rfl := Except.ok.inj accepted
      split at ran
      · rename_i middle run
        have start : Reader.HasFinished .initial := by simp [Reader.HasFinished, Reader.State.initial]
        have kept := Reader.leads_run
          (fun state token kept next eq => (Reader.closes_step kept token next eq).finished)
          start before middle run
        have single : Reader.step middle last = .ok state := by
          simp only [Reader.run] at ran
          split at ran
          · rename_i eq
            rw [eq, Except.ok.inj ran]
          · simp at ran
        have closes := Reader.closes_step kept last state single
        simpa using closes.finished (closes.done eof)
      · simp at ran
    · simp at accepted
  · simp at accepted

end Selector

end SelectorPath
