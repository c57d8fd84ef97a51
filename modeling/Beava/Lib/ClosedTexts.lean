/-
Texts that tell where they end.

A text is read up to a character that closes or separates.  Two texts are told
apart when, whatever closes them, the whole decides what they stand for and what is
behind them.  Sequences of such texts with commas between them are told apart again.
-/

import Mathlib.Data.List.Basic

namespace ClosedTexts

variable {same : Prop}

def closers : List Char := [',',']','}',')']

/-- The text goes on with a character that closes or separates. -/
def Closed (text : List Char) : Prop := ∃ head rest, text = head :: rest ∧ head ∈ closers

/-- Whatever closes them, the texts are told apart, up to the relation. -/
def Apart (same : Prop) (first second : List Char) : Prop :=
  ∀ behind other, Closed behind → Closed other → first ++ behind = second ++ other →
    same ∧ behind = other

theorem closed_cons {head : Char} (closes : head ∈ closers) (rest : List Char) :
    Closed (head :: rest) := ⟨head,rest,rfl,closes⟩

theorem Apart.of_open {first second : List Char} (isOpen : ∀ ch ∈ first, ch ∉ closers)
    (otherOpen : ∀ ch ∈ second, ch ∉ closers) : Apart (first = second) first second := by
  rintro behind other ⟨head,rest,rfl,closes⟩ ⟨otherHead,others,rfl,otherCloses⟩ same
  rcases List.append_eq_append_iff.mp same with ⟨between,isSecond,tail⟩ | ⟨between,isFirst,tail⟩
  all_goals cases between with
    | nil => simp_all
    | cons ch more => simp_all

theorem Apart.imp {weaker : Prop} {first second : List Char} (apart : Apart same first second)
    (implies : same → weaker) : Apart weaker first second :=
  fun behind other closed otherClosed equal =>
    (apart behind other closed otherClosed equal).imp_left implies

theorem Apart.behind {first second : List Char} (apart : Apart same first second) (tag : List Char) :
    Apart same (tag ++ first) (tag ++ second) := by
  intro behind other closed otherClosed equal
  rw [List.append_assoc,List.append_assoc,List.append_cancel_left_eq] at equal
  exact apart behind other closed otherClosed equal

theorem Apart.of_eq {first second : String} (apart : Apart same first.toList second.toList)
    (equal : first = second) : same :=
  (apart [','] [','] (closed_cons (by decide) _) (closed_cons (by decide) _) (by rw [equal])).1

theorem Apart.tagged {first second : List Char} (apart : Apart same first second) (tag : List Char) :
    Apart same (tag ++ first ++ [')']) (tag ++ second ++ [')']) := by
  intro behind other _ _ equal
  rw [List.append_assoc,List.append_assoc,List.append_assoc,List.append_assoc,
    List.append_cancel_left_eq] at equal
  obtain ⟨isSame,tails⟩ := apart _ _ (closed_cons (by decide) _) (closed_cons (by decide) _) equal
  exact ⟨isSame,(List.cons.inj tails).2⟩

section Sequences

variable {α β : Type} (textOf : α → List Char)

/-- The items from the second on, and what closes them. -/
def furtherText (close : Char) : List α → List Char
  | [] => [close]
  | item :: rest => ',' :: ' ' :: (textOf item ++ furtherText close rest)

def itemsText (close : Char) : List α → List Char
  | [] => [close]
  | item :: rest => textOf item ++ furtherText textOf close rest

variable {textOf} {close : Char} {keyOf : α → β}

theorem closed_furtherText (closes : close ∈ closers) (items : List α) (behind : List Char) :
    Closed (furtherText textOf close items ++ behind) := by
  cases items with
  | nil => exact closed_cons closes _
  | cons item rest => exact closed_cons (by decide) _

theorem furtherText_apart (closes : close ∈ closers) (notComma : close ≠ ',') {items others : List α}
    (each : ∀ item ∈ items, ∀ other ∈ others,
      Apart (keyOf item = keyOf other) (textOf item) (textOf other))
    {behind other : List Char}
    (same : furtherText textOf close items ++ behind = furtherText textOf close others ++ other) :
    items.map keyOf = others.map keyOf ∧ behind = other := by
  induction items generalizing others with
  | nil => cases others with
    | nil => exact ⟨rfl,(List.cons.inj same).2⟩
    | cons => exact absurd (List.cons.inj same).1 notComma
  | cons item rest ih => cases others with
    | nil => exact absurd (List.cons.inj same).1.symm notComma
    | cons next others =>
        simp only [furtherText,List.cons_append,List.cons.injEq,true_and,
          List.append_assoc] at same
        obtain ⟨sameKey,further⟩ := each item List.mem_cons_self next List.mem_cons_self _ _
          (closed_furtherText closes rest behind) (closed_furtherText closes others other) same
        obtain ⟨sameKeys,isSame⟩ :=
          ih (fun later member other isOther => each later (List.mem_cons_of_mem item member) other
            (List.mem_cons_of_mem next isOther)) further
        exact ⟨by rw [List.map_cons,List.map_cons,sameKey,sameKeys],isSame⟩

/-- Items that do not begin with what closes them are told apart by their texts. -/
theorem itemsText_apart (closes : close ∈ closers) (notComma : close ≠ ',')
    (opens : ∀ item : α, ∃ head rest, textOf item = head :: rest ∧ head ∉ closers)
    {items others : List α}
    (each : ∀ item ∈ items, ∀ other ∈ others,
      Apart (keyOf item = keyOf other) (textOf item) (textOf other)) :
    Apart (items.map keyOf = others.map keyOf) (itemsText textOf close items)
      (itemsText textOf close others) := by
  intro behind other _ _ same
  have headed : ∀ item more behind other, close :: behind ≠ textOf item ++ more ++ other := by
    intro item more behind other isText
    obtain ⟨head,rest,isHead,notCloser⟩ := opens item
    rw [isHead] at isText
    exact notCloser ((List.cons.inj isText).1 ▸ closes)
  cases items with
  | nil => cases others with
    | nil => exact ⟨rfl,(List.cons.inj same).2⟩
    | cons => exact absurd same (headed _ _ _ _)
  | cons item rest => cases others with
    | nil => exact absurd same.symm (headed _ _ _ _)
    | cons next others =>
        rw [itemsText,itemsText,List.append_assoc,List.append_assoc] at same
        obtain ⟨sameKey,further⟩ := each item List.mem_cons_self next List.mem_cons_self _ _
          (closed_furtherText closes rest behind) (closed_furtherText closes others other) same
        obtain ⟨sameKeys,isSame⟩ := furtherText_apart closes notComma
          (fun later member other isOther => each later (List.mem_cons_of_mem item member) other
            (List.mem_cons_of_mem next isOther)) further
        exact ⟨by rw [List.map_cons,List.map_cons,sameKey,sameKeys],isSame⟩

theorem intercalate_text (close : Char) (textOf : α → String) (items : List α) :
    (", ".intercalate (items.map textOf)).toList ++ [close] =
      itemsText (fun item => (textOf item).toList) close items := by
  cases items with
  | nil => simp [itemsText]
  | cons item rest =>
      rw [itemsText]
      induction rest generalizing item with
      | nil => simp [furtherText]
      | cons next rest ih =>
          have more := ih next
          rw [List.map_cons] at more
          rw [List.map_cons,List.map_cons,String.intercalate_cons_cons,String.toList_append,
            String.toList_append,List.append_assoc,List.append_assoc,more,furtherText]
          simp

end Sequences

end ClosedTexts
