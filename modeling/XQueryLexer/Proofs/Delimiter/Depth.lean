import Mathlib.Order.Interval.Finset.Nat
import XQueryLexer.Proofs.Lexeme.Pending
import XQueryLexer.Proofs.Lexeme.Scanning

/-! The depth that the automaton counts tells how many comments are open around each character. -/

namespace XQueryLexer

namespace LexState

variable {held : LexState} {c : Char} {ahead : Option Char}

/-- Outside every delimiter no character leads to a comment. -/
theorem reading_ne_comment (outside : held ≠ comment) : held.reading c ahead ≠ comment := by
  -- The states that it can lead to are those of plain characters, or the one held.
  unfold reading
  split_ifs <;> simp [outside]

/-- Only the delimiter that opens a comment leads to one, where a lexeme may end. -/
theorem opens_of_entering (outside : held ≠ comment) (entered : held.entering c ahead = comment) :
    c = '(' ∧ ahead = some ':' := by
  -- One split for each test on the character, of which only the second one leads to a comment.
  unfold entering at entered
  split at entered
  · cases entered
  split at entered
  · split at entered
    · rename_i opens
      simpa using opens
    · split at entered <;> cases entered
  split at entered
  · cases entered
  split at entered
  · cases entered
  split at entered
  · cases entered
  split at entered
  · cases entered
  · exact absurd entered (reading_ne_comment outside)

end LexState

namespace Mode

/-- A mode whose depth is positive exactly inside a comment. -/
def IsNested (mode : Mode) : Prop :=
  mode.state = .comment ↔ 1 ≤ mode.depth

/-- What a character does to the comments around it, seen with the character after it. -/
inductive Moves (c : Char) (ahead : Option Char) : Mode → Mode → Prop
  /-- Outside comments nothing is counted. -/
  | apart {old new : LexState} (outside : old ≠ .comment) (apart : new ≠ .comment)
      (onward : new ≠ .commentEnd) : Moves c ahead ⟨old, 0⟩ ⟨new, 0⟩
  /-- An outermost comment opens. -/
  | opens {old : LexState} (outside : old ≠ .comment) (round : c = '(')
      (colon : ahead = some ':') : Moves c ahead ⟨old, 0⟩ ⟨.comment, 1⟩
  /-- A comment opens inside another one. -/
  | deeper {depth : Nat} (round : c = '(') (colon : ahead = some ':') :
      Moves c ahead ⟨.comment, depth + 1⟩ ⟨.comment, depth + 2⟩
  /-- A comment inside another one ends. -/
  | back {depth : Nat} (colon : c = ':') (round : ahead = some ')') :
      Moves c ahead ⟨.comment, depth + 2⟩ ⟨.comment, depth + 1⟩
  /-- An outermost comment ends. -/
  | ends (colon : c = ':') (round : ahead = some ')') : Moves c ahead ⟨.comment, 1⟩ ⟨.commentEnd, 0⟩
  /-- Every other character of a comment leaves the depth as it is. -/
  | stays {depth : Nat} (opens : ¬(c = '(' ∧ ahead = some ':'))
      (closes : ¬(c = ':' ∧ ahead = some ')')) :
      Moves c ahead ⟨.comment, depth + 1⟩ ⟨.comment, depth + 1⟩

variable {c : Char} {ahead : Option Char} {old new : Mode}

/-- Behind every character the depth is positive exactly inside a comment. -/
theorem Moves.isNested (moves : Moves c ahead old new) : new.IsNested := by
  -- One check for each of the moves, since each names the mode that it leads to.
  cases moves <;> simp_all [IsNested]

/-- Where a lexeme may end outside comments, a comment opens or nothing is counted. -/
theorem moves_enter {state : LexState} (outside : state ≠ .comment) (c : Char)
    (ahead : Option Char) : Moves c ahead ⟨state, 0⟩ (enter ⟨state, 0⟩ c ahead) := by
  unfold enter
  dsimp only
  split
  · rename_i entered
    obtain ⟨round, colon⟩ := LexState.opens_of_entering outside entered
    rw [entered]
    exact .opens outside round colon
  · rename_i apart
    refine .apart outside apart fun ended => ?_
    -- Behind a comment a lexeme starts, and its end is no class of lexemes.
    have lexical := state.entering_isLexical c ahead
    rw [ended] at lexical
    cases lexical

/-- A character of a comment opens another one, ends one or is passed over. -/
theorem moves_comment (depth : Nat) (c : Char) (ahead : Option Char) :
    Moves c ahead ⟨.comment, depth + 1⟩ (next ⟨.comment, depth + 1⟩ c ahead) := by
  simp only [next]
  split
  · rename_i closes
    -- A colon and a bracket leave one comment, which is the outermost one at depth one.
    obtain ⟨colon, round⟩ : c = ':' ∧ ahead = some ')' := by simpa using closes
    cases depth with
    | zero => exact .ends colon round
    | succ depth => exact .back colon round
  · rename_i closes
    split
    · rename_i opens
      obtain ⟨round, colon⟩ : c = '(' ∧ ahead = some ':' := by simpa using opens
      exact .deeper round colon
    · rename_i opens
      exact .stays (by simpa using opens) (by simpa using closes)

/-- Outside comments a character opens one, or nothing is counted. -/
theorem moves_outside {state : LexState} (outside : state ≠ .comment) (c : Char)
    (ahead : Option Char) : Moves c ahead ⟨state, 0⟩ (next ⟨state, 0⟩ c ahead) := by
  have enters := moves_enter outside c ahead
  have onward {new : LexState} (apart : new ≠ .comment) (onward : new ≠ .commentEnd) :
      Moves c ahead ⟨state, 0⟩ ⟨new, 0⟩ := .apart outside apart onward
  simp only [next]
  -- A state with a rule of its own goes on with its lexeme, or another lexeme starts.
  cases state with
  | comment => exact absurd rfl outside
  | number =>
    dsimp only
    split
    · exact onward (by simp) (by simp)
    split
    · exact onward (by simp) (by simp)
    · exact enters
  | word sigil =>
    dsimp only
    split
    · exact onward (by simp) (by simp)
    · exact enters
  | uriLiteral =>
    dsimp only
    split <;> exact onward (by simp) (by simp)
  | quoted quote =>
    dsimp only
    split
    · exact onward (by simp) (by simp)
    split <;> exact onward (by simp) (by simp)
  | exponent | pair | quoteEscape => exact onward (by simp) (by simp)
  | _ => exact enters

/-- Every character does one of these things to the comments around it. -/
theorem moves_next (nested : old.IsNested) (c : Char) (ahead : Option Char) :
    Moves c ahead old (old.next c ahead) := by
  obtain ⟨state, depth⟩ := old
  by_cases inside : state = .comment
  · -- Inside a comment the depth is positive, so that taking one from it is exact.
    subst inside
    obtain ⟨depth, rfl⟩ := Nat.exists_eq_add_of_le' (nested.mp rfl)
    exact moves_comment depth c ahead
  · -- Outside comments the depth is zero, and no state changes it but by opening one.
    obtain rfl : depth = 0 := by
      by_contra positive
      exact inside (nested.mpr (Nat.pos_of_ne_zero positive))
    exact moves_outside inside c ahead

/-- The modes that a walk over a text comes through, from the one in front of the first character
to the one behind the last. -/
def trail (text : List Char) : List Mode :=
  initial :: initial.walk text

/-- Each mode of a walk is what the character behind the mode before it leads to. -/
theorem getElem?_walk_succ (mode : Mode) (text : List Char) (place : Nat) :
    (mode :: mode.walk text)[place + 1]? = text[place]?.bind fun c =>
      ((mode :: mode.walk text)[place]?).map fun before => before.next c text[place + 1]? := by
  -- Induction on the text: a step further on it is the same law of what is left.
  induction text generalizing mode place with
  | nil => simp [walk]
  | cons c rest ih =>
    cases place with
    | zero => simp [walk, List.head?_eq_getElem?]
    | succ place =>
      rw [walk, List.getElem?_cons_succ, ih]
      simp

/-- A walk comes to one mode behind each character. -/
theorem length_walk (mode : Mode) (text : List Char) : (mode.walk text).length = text.length := by
  -- Induction on the text, each character of which adds one mode.
  induction text generalizing mode with
  | nil => rfl
  | cons c rest ih => simp [walk, ih]

variable {text : List Char} {place : Nat} {mode before after : Mode}

/-- Two modes of a walk in a row have a character between them, which leads from one to the
other. -/
theorem exists_next_of_trail (found : (trail text)[place + 1]? = some after) :
    ∃ before c, (trail text)[place]? = some before ∧ text[place]? = some c ∧
      after = before.next c text[place + 1]? := by
  -- The mode is there only if the one before it is, and a character between them.
  rw [trail, getElem?_walk_succ] at found
  obtain ⟨c, read, found⟩ := Option.bind_eq_some_iff.mp found
  obtain ⟨before, earlier, rfl⟩ := Option.map_eq_some_iff.mp found
  exact ⟨before, c, earlier, read, rfl⟩

/-- Everywhere on a walk the depth is positive exactly inside a comment. -/
theorem isNested_of_trail (found : (trail text)[place]? = some mode) : mode.IsNested := by
  -- Induction on the place: no step breaks the law, which holds at the start.
  induction place generalizing mode with
  | zero =>
    obtain rfl : initial = mode := by simpa [trail] using found
    simp [IsNested, initial]
  | succ place ih =>
    obtain ⟨before, c, earlier, -, rfl⟩ := exists_next_of_trail found
    exact (moves_next (ih earlier) c _).isNested

/-- Each character of a walk does one of the known things to the comments around it. -/
theorem exists_moves_of_trail (found : (trail text)[place + 1]? = some after) :
    ∃ before c, (trail text)[place]? = some before ∧ text[place]? = some c ∧
      Moves c text[place + 1]? before after := by
  -- The law of nesting holds before the step, which is all that the step asks for.
  obtain ⟨before, c, earlier, read, rfl⟩ := exists_next_of_trail found
  exact ⟨before, c, earlier, read, moves_next (isNested_of_trail earlier) c _⟩

end Mode

/-- A delimiter that opens a comment stands at a place of a text. -/
def OpensAt (text : List Char) (place : Nat) : Prop :=
  text[place]? = some '(' ∧ text[place + 1]? = some ':'

/-- A delimiter that ends a comment stands at a place of a text. -/
def ClosesAt (text : List Char) (place : Nat) : Prop :=
  text[place]? = some ':' ∧ text[place + 1]? = some ')'

/-- Whether a delimiter opens a comment at a place can be read off two characters. -/
instance (text : List Char) : DecidablePred (OpensAt text) := fun _ =>
  inferInstanceAs (Decidable (_ ∧ _))

/-- Whether a delimiter ends a comment at a place can be read off two characters. -/
instance (text : List Char) : DecidablePred (ClosesAt text) := fun _ =>
  inferInstanceAs (Decidable (_ ∧ _))

section Delimiters

variable {text : List Char} {place : Nat} {c : Char}

/-- Whether a comment opens at a character is decided by it and the one after it. -/
theorem opensAt_iff (read : text[place]? = some c) :
    OpensAt text place ↔ c = '(' ∧ text[place + 1]? = some ':' := by
  simp [OpensAt, read]

/-- Whether a comment ends at a character is decided by it and the one after it. -/
theorem closesAt_iff (read : text[place]? = some c) :
    ClosesAt text place ↔ c = ':' ∧ text[place + 1]? = some ')' := by
  simp [ClosesAt, read]

end Delimiters

/-- At how many places something holds, from the first one on and in front of the last one. -/
def tally (holds : Nat → Prop) [DecidablePred holds] (first last : Nat) : Nat :=
  ((Finset.Ico first last).filter holds).card

/-- One more place adds to a tally if it holds there. -/
theorem tally_succ (holds : Nat → Prop) [DecidablePred holds] {first last : Nat}
    (le : first ≤ last) :
    tally holds first (last + 1) = tally holds first last + if holds last then 1 else 0 := by
  -- The last place joins the interval, and counts if it is one of those that are tallied.
  rw [tally, tally, Nat.Ico_succ_right_eq_insert_Ico le, Finset.filter_insert]
  split
  · rw [Finset.card_insert_of_notMem (by simp)]
  · rfl

/-- The outermost comment around a place of a text, which a walk over the text has come into at
another place and has not left since. -/
structure OpenSince (text : List Char) (opened place : Nat) : Prop where
  /-- The place is behind the bracket that opens the comment. -/
  lt : opened < place
  /-- A delimiter opens the comment. -/
  opens : OpensAt text opened
  /-- In front of it the walk is outside comments. -/
  outside : ∃ mode, (Mode.trail text)[opened]? = some mode ∧ mode.state ≠ .comment
  /-- Behind its bracket the walk is inside a comment all the way to the place. -/
  inside {between : Nat} : opened < between → between ≤ place →
    ∃ mode, (Mode.trail text)[between]? = some mode ∧ mode.state = .comment

section Walk

variable {text : List Char} {opened place : Nat} {mode before after : Mode}

/-- The walk is outside comments in front of an outermost one. -/
theorem OpenSince.state_ne (since : OpenSince text opened place)
    (found : (Mode.trail text)[opened]? = some mode) : mode.state ≠ .comment := by
  -- Only one mode is at the place of the opening bracket.
  obtain ⟨same, there, outside⟩ := since.outside
  obtain rfl : mode = same := Option.some.inj (found.symm.trans there)
  exact outside

/-- The walk is inside a comment all the way from the opening bracket on. -/
theorem OpenSince.state_eq {between : Nat} (since : OpenSince text opened place)
    (behind : opened < between) (le : between ≤ place)
    (found : (Mode.trail text)[between]? = some mode) : mode.state = .comment := by
  -- Only one mode is at the place.
  obtain ⟨same, there, inside⟩ := since.inside behind le
  obtain rfl : mode = same := Option.some.inj (found.symm.trans there)
  exact inside

/-- A comment that is open has been open at the place before, unless it opens there. -/
theorem OpenSince.earlier (since : OpenSince text opened (place + 1)) (later : opened < place) :
    OpenSince text opened place where
  -- What is said of all places up to the later one holds up to the earlier one.
  lt := later
  opens := since.opens
  outside := since.outside
  inside behind le := since.inside behind (Nat.le_succ_of_le le)

/-- Inside a comment the walk has come into an outermost one. -/
theorem exists_openSince (found : (Mode.trail text)[place]? = some mode)
    (comment : mode.state = .comment) : ∃ opened, OpenSince text opened place := by
  induction place generalizing mode with
  | zero =>
    obtain rfl : Mode.initial = mode := by simpa [Mode.trail] using found
    cases comment
  | succ place ih =>
    obtain ⟨before, c, earlier, read, moves⟩ := Mode.exists_moves_of_trail found
    have last {between : Nat} (behind : place < between) (le : between ≤ place + 1) :
        ∃ inside, (Mode.trail text)[between]? = some inside ∧ inside.state = .comment := by
      obtain rfl : between = place + 1 := by omega
      exact ⟨mode, found, comment⟩
    by_cases inside : before.state = .comment
    · -- The comment around the place before goes on.
      obtain ⟨opened, since⟩ := ih earlier inside
      refine ⟨opened, Nat.lt_succ_of_lt since.lt, since.opens, since.outside, fun behind le => ?_⟩
      rcases Nat.lt_or_ge place _ with beyond | within
      · exact last beyond le
      · exact since.inside behind within
    · cases moves with
      | apart _ apart => exact absurd comment apart
      | opens outside round colon =>
        -- The character before the place opens the comment.
        subst round
        exact ⟨place, Nat.lt_succ_self place, ⟨read, colon⟩, ⟨_, earlier, inside⟩, last⟩
      | _ => exact absurd rfl inside

/-- The depth is one for the comment that has been opened outermost, and one more for each delimiter
since then that opens a comment, less one for each that ends one. -/
theorem OpenSince.depth_eq (since : OpenSince text opened place)
    (found : (Mode.trail text)[place]? = some mode) :
    mode.depth + tally (ClosesAt text) (opened + 1) place =
      1 + tally (OpensAt text) (opened + 1) place := by
  induction place generalizing mode with
  | zero => exact absurd since.lt (Nat.not_lt_zero opened)
  | succ place ih =>
    obtain ⟨before, c, earlier, read, moves⟩ := Mode.exists_moves_of_trail found
    have comment := since.state_eq since.lt (Nat.le_refl _) found
    rcases Nat.lt_or_ge opened place with later | first
    · -- The comment has been open before this character, which the tallies take in.
      have inside := since.state_eq later (Nat.le_succ place) earlier
      have depth := ih (since.earlier later) earlier
      rw [tally_succ _ later, tally_succ _ later]
      simp only [opensAt_iff read, closesAt_iff read]
      cases moves with
      | apart outside | opens outside => exact absurd inside outside
      | deeper round colon | back round colon =>
        dsimp only at depth
        simp [round, colon]
        omega
      | ends => cases comment
      | stays opens closes => rwa [if_neg opens, if_neg closes]
    · -- The character opens the comment itself, and there is nothing to tally yet.
      obtain rfl : opened = place := Nat.le_antisymm (Nat.le_of_lt_succ since.lt) first
      have outside := since.state_ne earlier
      cases moves with
      | apart _ apart => exact absurd comment apart
      | opens => simp [tally]
      | _ => exact absurd rfl outside

/-- No other outermost comment is around a place. -/
theorem OpenSince.unique {other : Nat} (since : OpenSince text opened place)
    (again : OpenSince text other place) : opened = other := by
  -- In front of the later of the two the walk would be both outside and inside a comment.
  have apart {first second : Nat} (earlier : OpenSince text first place)
      (later : OpenSince text second place) : ¬first < second := by
    intro less
    obtain ⟨mode, found, outside⟩ := later.outside
    exact outside (earlier.state_eq less (Nat.le_of_lt later.lt) found)
  have := apart since again
  have := apart again since
  omega

/-- A delimiter that ends a comment takes one from the depth, and it ends the outermost comment
exactly if nothing else is open. -/
theorem OpenSince.closes (since : OpenSince text opened place) (closes : ClosesAt text place)
    (here : (Mode.trail text)[place]? = some before)
    (behind : (Mode.trail text)[place + 1]? = some after) :
    after.depth + 1 = before.depth ∧ (before.depth ≤ 1 ↔ after.state = .commentEnd) ∧
      (after.state = .commentEnd ↔ tally (ClosesAt text) (opened + 1) (place + 1) =
        1 + tally (OpensAt text) (opened + 1) (place + 1)) := by
  have depth := since.depth_eq here
  have inside := since.state_eq since.lt (Nat.le_refl _) here
  obtain ⟨same, c, there, read, moves⟩ := Mode.exists_moves_of_trail behind
  obtain rfl : before = same := Option.some.inj (here.symm.trans there)
  obtain ⟨colon, round⟩ := (closesAt_iff read).mp closes
  rw [tally_succ _ since.lt, tally_succ _ since.lt]
  simp only [opensAt_iff read, closesAt_iff read, colon, round]
  cases moves with
  | apart outside | opens outside => exact absurd inside outside
  | deeper round => simp [round] at colon
  | back | ends =>
    -- The tallies differ by the depth in front of the colon, which is known.
    dsimp only at depth
    simp
    omega
  | stays _ apart => exact absurd ⟨colon, round⟩ apart

/-- Every other character of a comment leaves the walk inside a comment. -/
theorem OpenSince.stays (since : OpenSince text opened place) (apart : ¬ClosesAt text place)
    (behind : (Mode.trail text)[place + 1]? = some after) : after.state = .comment := by
  -- Of the moves that start inside a comment only that of a closing delimiter ends it.
  obtain ⟨before, c, here, read, moves⟩ := Mode.exists_moves_of_trail behind
  have inside := since.state_eq since.lt (Nat.le_refl _) here
  rw [closesAt_iff read] at apart
  cases moves with
  | apart outside => exact absurd inside outside
  | ends colon round => exact absurd ⟨colon, round⟩ apart
  | _ => rfl

end Walk

namespace Scan

/-- The scanner in front of a place of a text. -/
def before (text : List Char) (place : Nat) : Scan :=
  initial.advance (text.drop place) (text.take place)

/-- The scanner comes through the modes of the walk. -/
theorem getElem?_walk (scan : Scan) (front back : List Char) :
    (scan.mode :: scan.mode.walk (front ++ back))[front.length]? =
      some (scan.advance back front).mode := by
  -- Induction on what is read, after each character of which the scanner has the next mode.
  induction front generalizing scan with
  | nil => rfl
  | cons c rest ih => exact ih (scan.read c (rest ++ back).head?)

/-- One more character is read in front of what is behind it. -/
theorem advance_concat (scan : Scan) (front back : List Char) (c : Char) :
    scan.advance back (front ++ [c]) = (scan.advance (c :: back) front).read c back.head? := by
  -- Induction on the characters in front of the last one, which do not see the new split.
  induction front generalizing scan with
  | nil => rfl
  | cons d rest ih =>
    rw [List.cons_append, advance, ih, advance]
    simp

/-- At each place the scanner is in the mode of the walk. -/
theorem mode_before {text : List Char} {place : Nat} {mode : Mode}
    (found : (Mode.trail text)[place]? = some mode) : (before text place).mode = mode := by
  have within : place ≤ text.length := by
    have bound := (List.getElem?_eq_some_iff.mp found).1
    rw [Mode.trail, List.length_cons, Mode.length_walk] at bound
    exact Nat.le_of_lt_succ bound
  -- The mode behind the front of a text is that of the scanner which has read the front.
  have reached := getElem?_walk initial (text.take place) (text.drop place)
  rw [List.take_append_drop, List.length_take_of_le within] at reached
  exact Option.some.inj (reached.symm.trans found)

/-- Behind a place the scanner has read the character at it. -/
theorem before_succ {text : List Char} {place : Nat} {c : Char} (read : text[place]? = some c) :
    before text (place + 1) = (before text place).read c text[place + 1]? := by
  -- One character moves from what is ahead to what has been read.
  have front : text.take (place + 1) = text.take place ++ [c] := by
    rw [List.take_add_one, read, Option.toList_some]
  have back : text.drop place = c :: text.drop (place + 1) := by
    obtain ⟨within, rfl⟩ := List.getElem?_eq_some_iff.mp read
    exact List.drop_eq_getElem_cons within
  rw [before, front, advance_concat, ← back, List.head?_drop, before]

/-- The colon that ends the outermost comment finds the comment, up to behind the next bracket. -/
theorem findings_commentEnd {scan : Scan} (mode_eq : scan.mode = ⟨.comment, 1⟩) :
    (∃ start, (scan.read ':' (some ')')).findings = scan.findings ++
      [.lexeme ⟨scan.pending ++ ":)", .comment, start, scan.offset + 2⟩]) ∧
      (scan.read ':' (some ')')).pending = "" := by
  obtain ⟨mode, pending, start, offset, events⟩ := scan
  subst mode_eq
  -- The turn is noted first, and the bracket joins the lexeme with the colon before it is ended.
  let scan : Scan := ⟨⟨.comment, 1⟩, pending, start, offset, events⟩
  let noted := scan.record (.turn ':' (some ')') .comment .commentEnd)
  let joined := (noted.extend ':').extend ')'
  have pending_eq : joined.pending = pending ++ ":)" := by
    apply String.ext
    simp [joined, noted, scan, extend, record]
  have flushed : joined.flush .comment (offset + 2) =
      { joined with pending := "" }.record
        (.lexeme ⟨pending ++ ":)", .comment, joined.start, offset + 2⟩) := by
    rw [flush, pending_eq, if_neg (by simp)]
  have read_eq : scan.read ':' (some ')') = { joined.flush .comment (offset + 2) with
      mode := ⟨.commentEnd, 0⟩
      offset := offset + ':'.utf8Size } := rfl
  have findings_eq : ({ joined with pending := "" } : Scan).findings = scan.findings :=
    (findings_record scan _).trans (List.append_nil _)
  rw [read_eq, flushed]
  refine ⟨⟨joined.start, ?_⟩, rfl⟩
  exact (findings_record _ _).trans (congrArg (· ++ _) findings_eq)

/-- Behind the end of a comment a closing bracket is skipped. -/
theorem findings_skip {scan : Scan} (mode_eq : scan.mode = ⟨.commentEnd, 0⟩)
    (ahead : Option Char) : (scan.read ')' ahead).findings = scan.findings ∧
      (scan.read ')' ahead).pending = scan.pending := by
  -- The turn of the automaton is recorded, and it is not a finding.
  obtain ⟨mode, pending, start, offset, events⟩ := scan
  subst mode_eq
  exact ⟨(findings_record _ (.turn ')' ahead .commentEnd (.closing .round))).trans
    (List.append_nil _), rfl⟩

end Scan

/-- The bracket behind the end of a comment, which has been taken before it is read. -/
structure TakenAt (text : List Char) (place : Nat) : Prop where
  /-- It is the closing bracket of the delimiter. -/
  bracket : text[place]? = some ')'
  /-- The last lexeme in front of it is the comment, which takes it in. -/
  found : ∃ earlier body start, (Scan.before text place).findings = earlier ++
    [.lexeme ⟨body ++ ":)", .comment, start, (Scan.before text place).offset + 1⟩]
  /-- Reading it finds nothing. -/
  skipped : (Scan.before text (place + 1)).findings = (Scan.before text place).findings
  /-- Nothing is pending in front of it or behind it. -/
  resting : (Scan.before text place).pending = "" ∧ (Scan.before text (place + 1)).pending = ""

/-- Where a comment has ended, the bracket behind its colon has been taken with it. -/
theorem takenAt_of_commentEnd {text : List Char} {place : Nat} {mode : Mode}
    (found : (Mode.trail text)[place]? = some mode) (ended : mode.state = .commentEnd) :
    TakenAt text place := by
  cases place with
  | zero =>
    -- No walk starts at the end of a comment.
    obtain rfl : Mode.initial = mode := by simpa [Mode.trail] using found
    cases ended
  | succ place =>
    obtain ⟨before, c, earlier, read, moves⟩ := Mode.exists_moves_of_trail found
    cases moves with
    | apart _ _ onward => exact absurd ended onward
    | ends colon round =>
      subst colon
      -- The colon finds the comment, and the bracket is read in the mode behind it.
      have colon_eq := Scan.before_succ read
      rw [round] at colon_eq
      have bracket_eq := Scan.before_succ round
      obtain ⟨⟨start, comment⟩, taken⟩ := Scan.findings_commentEnd (Scan.mode_before earlier)
      obtain ⟨nothing, kept⟩ :=
        Scan.findings_skip (Scan.mode_before found) text[place + 1 + 1]?
      have offset_eq :
          (Scan.before text (place + 1)).offset = (Scan.before text place).offset + 1 :=
        congrArg Scan.offset colon_eq
      rw [← colon_eq] at comment taken
      rw [← bracket_eq] at nothing kept
      refine ⟨round,
        ⟨(Scan.before text place).findings, (Scan.before text place).pending, start, ?_⟩,
        nothing, taken, kept.trans taken⟩
      rw [offset_eq, comment]
    | _ => cases ended

/-- The depth of a walk over a text, where it tells how many comments are open. -/
structure CountsComments (text : List Char) : Prop where
  /-- The walk comes to a mode in front of the first character and behind every one. -/
  length_eq : (Mode.trail text).length = text.length + 1
  /-- The depth is positive exactly inside a comment. -/
  comment_iff {place : Nat} {mode : Mode} : (Mode.trail text)[place]? = some mode →
    (mode.state = .comment ↔ 1 ≤ mode.depth)
  /-- In every other state it is zero. -/
  depth_zero {place : Nat} {mode : Mode} : (Mode.trail text)[place]? = some mode →
    mode.state ≠ .comment → mode.depth = 0
  /-- Inside a comment one delimiter has opened the outermost one. -/
  opened {place : Nat} {mode : Mode} : (Mode.trail text)[place]? = some mode →
    mode.state = .comment → ∃! opened, OpenSince text opened place
  /-- The depth is one, and one more for each delimiter since then that opens a comment, less one
  for each that ends one. -/
  depth_eq {opened place : Nat} {mode : Mode} : OpenSince text opened place →
    (Mode.trail text)[place]? = some mode →
    mode.depth + tally (ClosesAt text) (opened + 1) place =
      1 + tally (OpensAt text) (opened + 1) place
  /-- A delimiter that ends a comment takes one from the depth, which is at most one exactly if
  the outermost comment ends, and then as many comments have ended as have been opened. -/
  closes {opened place : Nat} {before after : Mode} : OpenSince text opened place →
    ClosesAt text place → (Mode.trail text)[place]? = some before →
    (Mode.trail text)[place + 1]? = some after →
    after.depth + 1 = before.depth ∧ (before.depth ≤ 1 ↔ after.state = .commentEnd) ∧
      (after.state = .commentEnd ↔ tally (ClosesAt text) (opened + 1) (place + 1) =
        1 + tally (OpensAt text) (opened + 1) (place + 1))
  /-- No other character leads out of a comment. -/
  stays {opened place : Nat} {after : Mode} : OpenSince text opened place →
    ¬ClosesAt text place → (Mode.trail text)[place + 1]? = some after → after.state = .comment
  /-- Behind the end of a comment stands the bracket that has been taken with it. -/
  taken {place : Nat} {mode : Mode} : (Mode.trail text)[place]? = some mode →
    mode.state = .commentEnd → TakenAt text place

/-- The depth of a walk over a text tells how many comments are open. -/
theorem countsComments_trail (text : List Char) : CountsComments text where
  length_eq := congrArg Nat.succ (Mode.length_walk Mode.initial text)
  comment_iff := Mode.isNested_of_trail
  -- Outside comments a positive depth would put the walk inside one.
  depth_zero found outside := by
    have nested := Mode.isNested_of_trail found
    by_contra positive
    exact outside (nested.mpr (Nat.pos_of_ne_zero positive))
  opened found comment := by
    obtain ⟨opened, since⟩ := exists_openSince found comment
    exact ⟨opened, since, fun other again => again.unique since⟩
  depth_eq := OpenSince.depth_eq
  closes := OpenSince.closes
  stays := OpenSince.stays
  taken := takenAt_of_commentEnd

/-- The depth of a comment inside another one, before the first character and behind each one. -/
example : (Mode.trail "(:(::):)".toList).map Mode.depth = [0, 1, 1, 2, 2, 1, 1, 0, 0] := by
  decide +kernel

end XQueryLexer
