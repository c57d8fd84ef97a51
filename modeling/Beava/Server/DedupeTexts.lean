/-
Which dedupe values their texts tell apart.

Within one variant the texts are as good as the values, but for two things: the
texts of all NaN are the same while no NaN equals another, and the two zeros are
equal while their texts differ.  Across variants, where values are never equal, a
string is taken for every value that is written like it, a whole number in the
binary format for the integer, and no bytes for no items.
-/

import Beava.Apply.EntityKeys
import Beava.Core.ValueText
import Beava.Lib.ClosedTexts

namespace Beava.Server

open Beava.Core Beava.Apply ClosedTexts

/-! ### The values and their texts -/

def oneNaNNumber (number : F64) : F64 :=
  if number.isNaN then ⟨0x7FF8000000000000⟩ else number

mutual

/-- The value with one NaN for all. -/
def oneNaN : Value → Value
  | .f64 number => .f64 (oneNaNNumber number)
  | .list items => .list (oneNaNItems items)
  | .map entries => .map (oneNaNEntries entries)
  | value => value

def oneNaNItems : List Value → List Value
  | [] => []
  | item :: rest => oneNaN item :: oneNaNItems rest

def oneNaNEntries : List (String × Value) → List (String × Value)
  | [] => []
  | (key,value) :: rest => (key,oneNaN value) :: oneNaNEntries rest

end

theorem oneNaNItems_eq (items : List Value) : oneNaNItems items = items.map oneNaN := by
  induction items with
  | nil => rfl
  | cons item rest ih => rw [oneNaNItems,ih,List.map_cons]

theorem oneNaNEntries_eq (entries : List (String × Value)) :
    oneNaNEntries entries = entries.map fun entry => (entry.1,oneNaN entry.2) := by
  induction entries with
  | nil => rfl
  | cons entry rest ih => rw [oneNaNEntries,ih,List.map_cons]

/-- The values that the readers of a body make. -/
inductive Read : Value → Prop
  | null : Read .null
  | str (text : String) : Read (.str text)
  | i64 (number : Int64) : Read (.i64 number)
  | f64 (number : F64) : Read (.f64 number)
  | bool (flag : Bool) : Read (.bool flag)
  | bytes (data : List UInt8) : Read (.bytes data)
  | list (items : List Value) (each : ∀ item ∈ items, Read item) : Read (.list items)
  | map (entries : List (String × Value)) (each : ∀ entry ∈ entries, Read entry.2) :
      Read (.map entries)

/-- How numbers and strings are printed: a number as it reads back, every NaN alike, and a
string in quotes that end it. -/
structure PrintLaws {Expr : Type} (env : Env Expr) : Prop where
  displayF64 : ∀ first second, env.displayF64 first = env.displayF64 second ↔
    oneNaNNumber first = oneNaNNumber second
  displayStart : ∀ number, ∃ head rest, (env.displayF64 number).toList = head :: rest ∧
    (head.isDigit = true ∨ head ∈ ['-','i','N'])
  debugF64 : ∀ first second, env.debugF64 first = env.debugF64 second ↔
    oneNaNNumber first = oneNaNNumber second
  debugOpen : ∀ number, ∀ ch ∈ (env.debugF64 number).toList, ch ∉ closers
  debugStr : ∀ first second behind other,
    (env.debugStr first).toList ++ behind = (env.debugStr second).toList ++ other →
      first = second ∧ behind = other
  quoted : ∀ text, ∃ rest, (env.debugStr text).toList = '"' :: rest

section Texts

variable {Expr : Type} {env : Env Expr} {texts : JsonTexts}
variable {second value : Value}
variable {first : Value}

theorem debugItems_eq (items : List Value) :
    Value.debugItems env texts items = items.map (Value.debug env texts) := by
  induction items with
  | nil => rfl
  | cons item rest ih => rw [Value.debugItems,ih,List.map_cons]

def entryText (env : Env Expr) (texts : JsonTexts) (entry : String × Value) : String :=
  env.debugStr entry.1 ++ ": " ++ Value.debug env texts entry.2

theorem debugEntries_eq (entries : List (String × Value)) :
    Value.debugEntries env texts entries = entries.map (entryText env texts) := by
  induction entries with
  | nil => rfl
  | cons entry rest ih => rw [Value.debugEntries,ih,List.map_cons,entryText]

theorem debugSeq_text {α : Type} (textOf : α → String) (items : List α) :
    (debugSeq (items.map textOf)).toList =
      '[' :: itemsText (fun item => (textOf item).toList) ']' items := by
  rw [← intercalate_text,debugSeq]
  simp

theorem debugMap_text {α : Type} (textOf : α → String) (entries : List α) :
    (debugMap (entries.map textOf)).toList =
      '\x7b' :: itemsText (fun entry => (textOf entry).toList) '\x7d' entries := by
  rw [← intercalate_text,debugMap]
  simp

theorem digits_open {number : Int64} : ∀ ch ∈ (toString number).toList, ch ∉ closers := by
  intro ch member closes
  rcases mem_toString_int64 member with rfl | digit
  · exact absurd closes (by decide)
  · simp only [closers,List.mem_cons,List.not_mem_nil,or_false] at closes
    rcases closes with rfl | rfl | rfl | rfl <;> exact absurd digit (by decide)

theorem byte_digit (byte : UInt8) : ∀ ch ∈ (toString byte.toNat).toList, ch.isDigit = true := by
  intro ch member
  rw [Nat.toString_eq_repr,Nat.toList_repr] at member
  exact Nat.isDigit_of_mem_toDigits (by decide) (by decide) member

theorem byte_open (byte : UInt8) : ∀ ch ∈ (toString byte.toNat).toList, ch ∉ closers := by
  intro ch member closes
  have digit := byte_digit byte ch member
  simp only [closers,List.mem_cons,List.not_mem_nil,or_false] at closes
  rcases closes with rfl | rfl | rfl | rfl <;> exact absurd digit (by decide)

theorem byte_apart (first second : UInt8) :
    Apart (first = second) (toString first.toNat).toList (toString second.toNat).toList :=
  (Apart.of_open (byte_open first) (byte_open second)).imp fun same =>
    UInt8.toNat_inj.mp (Nat.repr_injective (String.toList_inj.mp same))

theorem debugBytes_apart (first second : List UInt8) :
    Apart (first = second) (debugBytes first).toList (debugBytes second).toList := by
  rw [debugBytes,debugBytes,debugSeq_text,debugSeq_text]
  have opens : ∀ byte : UInt8, ∃ head rest,
      (toString byte.toNat).toList = head :: rest ∧ head ∉ closers := by
    intro byte
    cases isText : (toString byte.toNat).toList with
    | nil => exact absurd (Nat.repr_ne_empty (String.toList_eq_nil_iff.mp isText)) id
    | cons head rest => exact ⟨head,rest,rfl,byte_open byte head (isText ▸ List.mem_cons_self)⟩
  have apart := @itemsText_apart _ _ _ ']' id (by decide) (by decide) opens first second
    fun byte _ other _ => byte_apart byte other
  rw [List.map_id,List.map_id] at apart
  exact apart.behind ['[']

/-- The first two characters of a `{:?}`, which tell the variants apart. -/
def debugTag : Value → Char × Char
  | .null => ('N','u')
  | .str _ => ('S','t')
  | .i64 _ => ('I','6')
  | .f64 _ => ('F','6')
  | .bool _ => ('B','o')
  | .bytes _ => ('B','y')
  | .datetime _ => ('D','a')
  | .json _ => ('J','s')
  | .list _ => ('L','i')
  | .map _ => ('M','a')

theorem debug_tag (value : Value) : ∃ rest,
    (Value.debug env texts value).toList = (debugTag value).1 :: (debugTag value).2 :: rest := by
  cases value <;> simp [Value.debug,debugTag]

theorem debug_opens (value : Value) : ∃ head rest,
    (Value.debug env texts value).toList = head :: rest ∧ head ∉ closers := by
  obtain ⟨rest,isText⟩ := @debug_tag _ env texts value
  refine ⟨_,_,isText,?_⟩
  cases value <;> simp [debugTag,closers]

theorem apart_of_tag {same : Prop} (differ : debugTag first ≠ debugTag second) :
    Apart same (Value.debug env texts first).toList (Value.debug env texts second).toList := by
  obtain ⟨rest,isText⟩ := @debug_tag _ env texts first
  obtain ⟨others,isOther⟩ := @debug_tag _ env texts second
  intro behind other _ _ equal
  rw [isText,isOther,List.cons_append,List.cons_append,List.cons_append,List.cons_append,
    List.cons.injEq,List.cons.injEq] at equal
  exact absurd (Prod.ext equal.1 equal.2.1) differ

/-- The two are told apart by their `{:?}`, up to the NaN. -/
def DebugApart (env : Env Expr) (texts : JsonTexts) (first second : Value) : Prop :=
  Apart (oneNaN first = oneNaN second) (Value.debug env texts first).toList
    (Value.debug env texts second).toList

theorem entry_opens (laws : PrintLaws env) (entry : String × Value) : ∃ head rest,
    (entryText env texts entry).toList = head :: rest ∧ head ∉ closers := by
  obtain ⟨rest,isText⟩ := laws.quoted entry.1
  have isEntry : (entryText env texts entry).toList =
      '"' :: (rest ++ (": ".toList ++ (Value.debug env texts entry.2).toList)) := by
    rw [entryText,String.toList_append,String.toList_append,isText,List.append_assoc,
      List.cons_append]
  exact ⟨_,_,isEntry,by decide⟩

theorem entry_apart (laws : PrintLaws env) {first second : String × Value}
    (values : DebugApart env texts first.2 second.2) :
    Apart ((first.1,oneNaN first.2) = (second.1,oneNaN second.2))
      (entryText env texts first).toList (entryText env texts second).toList := by
  intro behind other closed otherClosed equal
  simp only [entryText,String.toList_append,List.append_assoc] at equal
  obtain ⟨sameKey,tails⟩ := laws.debugStr _ _ _ _ equal
  obtain ⟨sameValue,sameBehind⟩ := values behind other closed otherClosed
    (List.append_cancel_left tails)
  exact ⟨by rw [sameKey,sameValue],sameBehind⟩

theorem items_apart {items others : List Value}
    (each : ∀ item ∈ items, ∀ other ∈ others, DebugApart env texts item other) :
    Apart (oneNaNItems items = oneNaNItems others)
      (debugSeq (Value.debugItems env texts items)).toList
      (debugSeq (Value.debugItems env texts others)).toList := by
  rw [oneNaNItems_eq,oneNaNItems_eq,debugItems_eq,debugItems_eq,debugSeq_text,debugSeq_text]
  exact (itemsText_apart (by decide) (by decide) debug_opens each).behind ['[']

theorem entries_apart (laws : PrintLaws env) {entries others : List (String × Value)}
    (each : ∀ entry ∈ entries, ∀ other ∈ others, DebugApart env texts entry.2 other.2) :
    Apart (oneNaNEntries entries = oneNaNEntries others)
      (debugMap (Value.debugEntries env texts entries)).toList
      (debugMap (Value.debugEntries env texts others)).toList := by
  rw [oneNaNEntries_eq,oneNaNEntries_eq,debugEntries_eq,debugEntries_eq,debugMap_text,
    debugMap_text]
  exact (itemsText_apart (by decide) (by decide) (entry_opens laws) fun entry member other isOther =>
    entry_apart laws (each entry member other isOther)).behind ['\x7b']

theorem debug_apart (laws : PrintLaws env) (read : Read first) (other : Read second) :
    DebugApart env texts first second := by
  induction read generalizing second with
  | null => cases other with
    | null => exact fun _ _ _ _ equal => ⟨rfl,List.append_cancel_left equal⟩
    | _ => exact apart_of_tag (by simp [debugTag])
  | str text => cases other with
    | str other =>
        have texts : Apart (Value.str text = .str other) (env.debugStr text).toList
            (env.debugStr other).toList := fun behind rest _ _ equal =>
          (laws.debugStr text other behind rest equal).imp_left (congrArg Value.str)
        simpa [DebugApart,Value.debug,oneNaN] using texts.tagged "Str(".toList
    | _ => exact apart_of_tag (by simp [debugTag])
  | i64 number => cases other with
    | i64 other =>
        have texts := (Apart.of_open (@digits_open number) (@digits_open other)).imp
          fun same => toString_int64_inj.mp (String.toList_inj.mp same)
        simpa [DebugApart,Value.debug,oneNaN] using texts.tagged "I64(".toList
    | _ => exact apart_of_tag (by simp [debugTag])
  | f64 number => cases other with
    | f64 other =>
        have texts := (Apart.of_open (laws.debugOpen number) (laws.debugOpen other)).imp
          fun same => (laws.debugF64 number other).mp (String.toList_inj.mp same)
        simpa [DebugApart,Value.debug,oneNaN] using texts.tagged "F64(".toList
    | _ => exact apart_of_tag (by simp [debugTag])
  | bool flag => cases other with
    | bool other =>
        have isOpen : ∀ flag : Bool, ∀ ch ∈ (toString flag).toList, ch ∉ closers := by
          intro flag
          cases flag <;> simp [closers,toString]
        have texts := (Apart.of_open (isOpen flag) (isOpen other)).imp
          fun same => show flag = other by
            cases flag <;> cases other <;> first | rfl | exact absurd same (by decide)
        simpa [DebugApart,Value.debug,oneNaN] using texts.tagged "Bool(".toList
    | _ => exact apart_of_tag (by simp [debugTag])
  | bytes data => cases other with
    | bytes other =>
        simpa [DebugApart,Value.debug,oneNaN] using (debugBytes_apart data other).tagged "Bytes(".toList
    | _ => exact apart_of_tag (by simp [debugTag])
  | list items each ih => cases other with
    | list others eachOther =>
        have texts := items_apart fun item member other isOther =>
          ih item member (eachOther other isOther)
        simpa [DebugApart,Value.debug,oneNaN] using texts.tagged "List(".toList
    | _ => exact apart_of_tag (by simp [debugTag])
  | map entries each ih => cases other with
    | map others eachOther =>
        have texts := entries_apart laws fun entry member other isOther =>
          ih entry member (eachOther other isOther)
        simpa [DebugApart,Value.debug,oneNaN] using texts.tagged "Map(".toList
    | _ => exact apart_of_tag (by simp [debugTag])

theorem oneNaNNumber_again (number : F64) : oneNaNNumber (oneNaNNumber number) = oneNaNNumber number := by
  by_cases isNaN : number.isNaN = true
  · have same : oneNaNNumber number = ⟨0x7FF8000000000000⟩ := if_pos isNaN
    rw [same]
    rfl
  · have same : oneNaNNumber number = number := if_neg isNaN
    rw [same,same]

theorem debugItems_oneNaN {items : List Value}
    (each : ∀ item ∈ items, Value.debug env texts (oneNaN item) = Value.debug env texts item) :
    Value.debugItems env texts (oneNaNItems items) = Value.debugItems env texts items := by
  rw [debugItems_eq,debugItems_eq,oneNaNItems_eq,List.map_map]
  exact List.map_congr_left each

theorem debugEntries_oneNaN {entries : List (String × Value)}
    (each : ∀ entry ∈ entries,
      Value.debug env texts (oneNaN entry.2) = Value.debug env texts entry.2) :
    Value.debugEntries env texts (oneNaNEntries entries) =
      Value.debugEntries env texts entries := by
  rw [debugEntries_eq,debugEntries_eq,oneNaNEntries_eq,List.map_map]
  refine List.map_congr_left fun entry member => ?_
  rw [Function.comp_apply,entryText,entryText,each entry member]

theorem debug_oneNaN (laws : PrintLaws env) (read : Read value) :
    Value.debug env texts (oneNaN value) = Value.debug env texts value := by
  induction read with
  | f64 number =>
      rw [oneNaN,Value.debug,Value.debug,(laws.debugF64 _ _).mpr (oneNaNNumber_again number)]
  | list items _ ih => rw [oneNaN,Value.debug,Value.debug,debugItems_oneNaN ih]
  | map entries _ ih => rw [oneNaN,Value.debug,Value.debug,debugEntries_oneNaN ih]
  | _ => rfl

theorem dedupeText_oneNaN (laws : PrintLaws env) (read : Read value) :
    (oneNaN value).dedupeText env texts = value.dedupeText env texts := by
  cases read with
  | f64 number => exact (laws.displayF64 _ _).mpr (oneNaNNumber_again number)
  | list items each =>
      rw [oneNaN,Value.dedupeText,Value.dedupeText,
        debugItems_oneNaN fun item member => debug_oneNaN laws (each item member)]
  | map entries each =>
      rw [oneNaN,Value.dedupeText,Value.dedupeText,
        debugEntries_oneNaN fun entry member => debug_oneNaN laws (each entry member)]
  | _ => rfl

/-- Within one variant the texts are the same exactly for what is the same up to the NaN. -/
theorem sameText_iff (laws : PrintLaws env) (read : Read first) (other : Read second)
    (sameVariant : first.ctorIdx = second.ctorIdx) :
    first.dedupeText env texts = second.dedupeText env texts ↔ oneNaN first = oneNaN second := by
  constructor
  · intro same
    cases read with
    | null => cases other with
      | null => rfl
      | _ => cases sameVariant
    | str text => cases other with
      | str other => exact congrArg Value.str same
      | _ => cases sameVariant
    | i64 number => cases other with
      | i64 other => exact congrArg Value.i64 (toString_int64_inj.mp same)
      | _ => cases sameVariant
    | f64 number => cases other with
      | f64 other => exact congrArg Value.f64 ((laws.displayF64 number other).mp same)
      | _ => cases sameVariant
    | bool flag => cases other with
      | bool other =>
          have same : toString flag = toString other := same
          cases flag <;> cases other <;> first | rfl | exact absurd same (by decide)
      | _ => cases sameVariant
    | bytes data => cases other with
      | bytes other => exact congrArg Value.bytes ((debugBytes_apart data other).of_eq same)
      | _ => cases sameVariant
    | list items each => cases other with
      | list others eachOther =>
          have texts := @items_apart _ env texts _ _ fun item member other isOther =>
            debug_apart laws (each item member) (eachOther other isOther)
          exact congrArg Value.list (texts.of_eq same)
      | _ => cases sameVariant
    | map entries each => cases other with
      | map others eachOther =>
          have texts := @entries_apart _ env texts laws _ _ fun entry member other isOther =>
            debug_apart laws (each entry member) (eachOther other isOther)
          exact congrArg Value.map (texts.of_eq same)
      | _ => cases sameVariant
  · intro same
    rw [← dedupeText_oneNaN laws read,← dedupeText_oneNaN laws other,same]

/-! ### Values of different variants -/

variable (env texts) in
/-- A value that is no string is written so. -/
def Writes : Value → String → Prop
  | .null, text => text = "null"
  | .bool flag, text => text = toString flag
  | .i64 number, text => text = toString number
  | .f64 number, text => text = env.displayF64 number
  | .bytes data, text => text = debugBytes data
  | .list items, text => text = debugSeq (Value.debugItems env texts items)
  | .map entries, text => text = debugMap (Value.debugEntries env texts entries)
  | _, _ => False

variable (env texts) in
/-- Two values of different variants are not written alike. -/
def WrittenApart : Value → Value → Prop
  | .str text, other => ¬Writes env texts other text
  | other, .str text => ¬Writes env texts other text
  | .i64 whole, .f64 number => env.displayF64 number ≠ toString whole
  | .f64 number, .i64 whole => env.displayF64 number ≠ toString whole
  | .bytes data, .list items => ¬(data = [] ∧ items = [])
  | .list items, .bytes data => ¬(data = [] ∧ items = [])
  | _, _ => True

theorem toString_int64_ne_empty (number : Int64) : toString number ≠ "" := by
  have spelled : toString number =
      if 0 ≤ number.toInt then number.toInt.toNat.repr else "-" ++ (-number.toInt).toNat.repr :=
    Int.repr_eq_if
  rw [spelled]
  split
  · exact Nat.repr_ne_empty
  · simp

/-- Words, numbers, sequences and maps, by what their texts begin with. -/
def startKind (head : Char) : Nat :=
  if head = 'n' then 0
  else if head = 't' ∨ head = 'f' then 1
  else if head = '[' then 2
  else if head = '\x7b' then 3
  else 4

def textKind : Value → Nat
  | .null => 0
  | .bool _ => 1
  | .bytes _ => 2
  | .list _ => 2
  | .map _ => 3
  | _ => 4

theorem startKind_number {head : Char} (starts : head.isDigit = true ∨ head ∈ ['-','i','N']) :
    startKind head = 4 := by
  have other : ∀ ch ∈ ['n','t','f','[','\x7b'], head ≠ ch := by
    rintro ch member rfl
    rcases starts with digit | sign
    · simp only [List.mem_cons,List.not_mem_nil,or_false] at member
      rcases member with rfl | rfl | rfl | rfl | rfl <;> cases digit
    · simp only [List.mem_cons,List.not_mem_nil,or_false] at sign
      rcases sign with rfl | rfl | rfl <;> exact absurd member (by decide)
  simp only [List.forall_mem_cons] at other
  obtain ⟨notN,notT,notF,notBracket,notBrace,-⟩ := other
  rw [startKind,if_neg notN,if_neg (by simp [notT,notF]),if_neg notBracket,if_neg notBrace]

theorem text_starts (laws : PrintLaws env) (read : Read value) (notStr : ∀ text,value ≠ .str text) :
    ∃ head rest, (value.dedupeText env texts).toList = head :: rest ∧
      startKind head = textKind value := by
  cases read with
  | null => exact ⟨'n',"ull".toList,by simp [Value.dedupeText],rfl⟩
  | str text => exact absurd rfl (notStr text)
  | i64 number =>
      cases isText : (toString number).toList with
      | nil => exact absurd (String.toList_eq_nil_iff.mp isText) (toString_int64_ne_empty number)
      | cons head rest =>
          refine ⟨head,rest,isText,startKind_number ?_⟩
          rcases mem_toString_int64 (isText ▸ List.mem_cons_self) with rfl | digit
          · exact .inr (by decide)
          · exact .inl digit
  | f64 number =>
      obtain ⟨head,rest,isText,starts⟩ := laws.displayStart number
      exact ⟨head,rest,isText,startKind_number starts⟩
  | bool flag => cases flag with
    | true => exact ⟨'t',"rue".toList,by rw [Value.dedupeText]; decide,rfl⟩
    | false => exact ⟨'f',"alse".toList,by rw [Value.dedupeText]; decide,rfl⟩
  | bytes data => exact ⟨'[',_,debugSeq_text _ data,rfl⟩
  | list items =>
      rw [Value.dedupeText,debugItems_eq]
      exact ⟨'[',_,debugSeq_text _ items,rfl⟩
  | map entries =>
      rw [Value.dedupeText,debugEntries_eq]
      exact ⟨'\x7b',_,debugMap_text _ entries,rfl⟩

theorem writes_iff (read : Read value) (notStr : ∀ text, value ≠ .str text) (text : String) :
    Writes env texts value text ↔ value.dedupeText env texts = text := by
  cases read with
  | str other => exact absurd rfl (notStr other)
  | _ => exact eq_comm

theorem partialEq_of_ctorIdx (differ : first.ctorIdx ≠ second.ctorIdx) :
    first.partialEq second = false := by
  cases first <;> cases second <;> first | rfl | exact absurd rfl differ

theorem bytes_list_iff (data : List UInt8) (items : List Value) :
    (Value.bytes data).dedupeText env texts = (Value.list items).dedupeText env texts ↔
      data = [] ∧ items = [] := by
  rw [← String.toList_inj,Value.dedupeText,Value.dedupeText,debugBytes,debugSeq_text,
    debugItems_eq,debugSeq_text,List.cons.injEq]
  cases data with
  | nil => cases items with
    | nil => simp [itemsText]
    | cons item rest =>
        obtain ⟨head,text,isText,notCloser⟩ := @debug_opens _ env texts item
        simp only [itemsText,isText,List.cons_append,List.cons.injEq,true_and,reduceCtorEq,
          and_false,iff_false,not_and]
        intro same
        exact absurd (same ▸ notCloser) (by decide)
  | cons byte more =>
      obtain ⟨head,rest,isByte⟩ : ∃ head rest, (toString byte.toNat).toList = head :: rest :=
        List.exists_cons_of_ne_nil fun empty => Nat.repr_ne_empty (String.toList_eq_nil_iff.mp empty)
      have digit := byte_digit byte head (isByte ▸ List.mem_cons_self)
      refine iff_of_false ?_ (by simp)
      rintro ⟨-,same⟩
      cases items with
      | nil =>
          simp only [itemsText,isByte,List.cons_append,List.cons.injEq] at same
          rw [same.1] at digit
          cases digit
      | cons item others =>
          obtain ⟨tail,isText⟩ := @debug_tag _ env texts item
          simp only [itemsText,isByte,isText,List.cons_append,List.cons.injEq] at same
          rw [same.1] at digit
          cases item <;> cases digit

theorem writtenApart_of_kind (notStr : ∀ text, first ≠ .str text)
    (otherNotStr : ∀ text, second ≠ .str text) (differ : textKind first ≠ textKind second) :
    WrittenApart env texts first second := by
  cases first with
  | str text => exact absurd rfl (notStr text)
  | _ => cases second with
    | str text => exact absurd rfl (otherNotStr text)
    | _ => first | exact trivial | exact absurd rfl differ

theorem writtenApart_str (notStr : ∀ text, value ≠ .str text) (text : String) :
    WrittenApart env texts value (.str text) ↔ ¬Writes env texts value text := by
  cases value with
  | str other => exact absurd rfl (notStr other)
  | _ => exact Iff.rfl

/-- Two values of different variants have one text exactly when they are written alike. -/
theorem differentText_iff (laws : PrintLaws env) (read : Read first) (other : Read second)
    (differ : first.ctorIdx ≠ second.ctorIdx) :
    first.dedupeText env texts = second.dedupeText env texts ↔
      ¬WrittenApart env texts first second := by
  by_cases isStr : ∃ text, first = .str text
  · obtain ⟨text,rfl⟩ := isStr
    have notStr : ∀ text, second ≠ .str text := fun _ same => differ (same ▸ rfl)
    rw [WrittenApart,not_not,writes_iff other notStr,eq_comm]
    rfl
  have notStr : ∀ text, first ≠ .str text := fun text same => isStr ⟨text,same⟩
  by_cases otherStr : ∃ text, second = .str text
  · obtain ⟨text,rfl⟩ := otherStr
    rw [writtenApart_str notStr,not_not,writes_iff read notStr]
    rfl
  have otherNotStr : ∀ text, second ≠ .str text := fun text same => otherStr ⟨text,same⟩
  by_cases sameKind : textKind first = textKind second
  · cases read with
    | i64 whole => cases other with
      | f64 number => rw [WrittenApart,not_not,eq_comm]; rfl
      | _ => first | exact absurd rfl (otherNotStr _) | exact absurd rfl differ | cases sameKind
    | f64 number => cases other with
      | i64 whole => rw [WrittenApart,not_not]; rfl
      | _ => first | exact absurd rfl (otherNotStr _) | exact absurd rfl differ | cases sameKind
    | bytes data => cases other with
      | list items => rw [WrittenApart,not_not,bytes_list_iff]
      | _ => first | exact absurd rfl (otherNotStr _) | exact absurd rfl differ | cases sameKind
    | list items => cases other with
      | bytes data => rw [WrittenApart,not_not,eq_comm,bytes_list_iff]
      | _ => first | exact absurd rfl (otherNotStr _) | exact absurd rfl differ | cases sameKind
    | str text => exact absurd rfl (notStr text)
    | _ => cases other <;>
        first | exact absurd rfl (otherNotStr _) | exact absurd rfl differ | cases sameKind
  · obtain ⟨head,rest,isText,starts⟩ := text_starts laws read notStr
    obtain ⟨otherHead,others,isOther,otherStarts⟩ := text_starts laws other otherNotStr
    refine iff_of_false (fun same => ?_)
      (not_not.mpr (writtenApart_of_kind notStr otherNotStr sameKind))
    rw [same,isOther,List.cons.injEq] at isText
    exact sameKind (starts.symm.trans (isText.1 ▸ otherStarts))

variable (env texts) in
/-- The text of the values does not mix them up: in one variant they are equal exactly when they
are the same up to the NaN, and in different ones they are not written alike. -/
structure ToldApart (first second : Value) : Prop where
  read : Read first
  readOther : Read second
  within : first.ctorIdx = second.ctorIdx →
    (oneNaN first = oneNaN second ↔ first.partialEq second = true)
  between : first.ctorIdx ≠ second.ctorIdx → WrittenApart env texts first second

theorem textFaithful_iff_toldApart (laws : PrintLaws env) (read : Read first)
    (readOther : Read second) :
    TextFaithful env texts first second ↔ ToldApart env texts first second := by
  by_cases sameVariant : first.ctorIdx = second.ctorIdx
  · rw [TextFaithful,sameText_iff laws read readOther sameVariant]
    exact ⟨fun faithful => ⟨read,readOther,fun _ => faithful,fun differ => absurd sameVariant differ⟩,
      fun apart => apart.within sameVariant⟩
  · rw [TextFaithful,differentText_iff laws read readOther sameVariant,
      partialEq_of_ctorIdx sameVariant,Bool.false_eq_true,iff_false,not_not]
    exact ⟨fun apart => ⟨read,readOther,fun same => absurd same sameVariant,fun _ => apart⟩,
      fun apart => apart.between sameVariant⟩

end Texts

end Beava.Server
