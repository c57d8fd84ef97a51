/-
Scanning a stream of self-delimiting records.

A head decoder recognises one record at the front of a list and reports how
many elements it used.  Nothing beyond the record may influence the answer.
Scanning repeats the decoder until it fails, and places every record by the
half-open interval it occupies.  The accepted intervals tile a prefix of the
stream, the scan of that prefix is independent of what follows it, and the
scan of a truncated stream returns the records that lie wholly before the cut.
-/

import Mathlib.Data.List.Basic

namespace RecordScan

variable {β α : Type}
variable {data : List β}

structure HeadDecoder (β α : Type) where
  decode : List β → Option (α × Nat)
  positive : ∀ {data item size}, decode data = some (item,size) → 0 < size
  bounded : ∀ {data item size}, decode data = some (item,size) → size ≤ data.length
  localized : ∀ {data item size}, decode data = some (item,size) →
    ∀ rest, decode (data.take size ++ rest) = some (item,size)

/-- A decoded item with the interval `start..stop` it was decoded from. -/
structure Piece (α : Type) where
  item : α
  start : Nat
  stop : Nat
  deriving DecidableEq, Repr

namespace HeadDecoder

variable (decoder : HeadDecoder β α)
variable {data : List β}

theorem decode_nil : decoder.decode [] = none := by
  cases decoded : decoder.decode [] with
  | none => rfl
  | some found =>
      have low := decoder.positive (show decoder.decode [] = some (found.1,found.2) from decoded)
      have high := decoder.bounded (show decoder.decode [] = some (found.1,found.2) from decoded)
      simp only [List.length_nil] at high
      omega

theorem decode_take_of_lt {item : α} {size cut : Nat}
    (decoded : decoder.decode data = some (item,size)) (short : cut < size) :
    decoder.decode (data.take cut) = none := by
  cases shorter : decoder.decode (data.take cut) with
  | none => rfl
  | some found =>
      obtain ⟨other,otherSize⟩ := found
      have otherLe := decoder.bounded shorter
      have extended := decoder.localized shorter (data.drop otherSize)
      have sizeLe : otherSize ≤ cut := by
        simp only [List.length_take] at otherLe
        omega
      rw [List.take_take,Nat.min_eq_left sizeLe,List.take_append_drop,decoded] at extended
      have sameSize : size = otherSize := congrArg Prod.snd (Option.some.inj extended)
      omega

def scanFrom : Nat → Nat → List β → List (Piece α)
  | 0, _, _ => []
  | fuel + 1, start, data =>
      match decoder.decode data with
      | none => []
      | some (item,size) =>
          { item := item, start := start, stop := start + size } ::
            scanFrom fuel (start + size) (data.drop size)

/-- All records of `data`, placed relative to the absolute position `start`. -/
def pieces (start : Nat) (data : List β) : List (Piece α) :=
  decoder.scanFrom data.length start data

theorem scanFrom_eq_pieces (fuel start : Nat) (data : List β) (enough : data.length ≤ fuel) :
    decoder.scanFrom fuel start data = decoder.pieces start data := by
  have stable : ∀ (first second : Nat) (start : Nat) (data : List β),
      data.length ≤ first → data.length ≤ second →
        decoder.scanFrom first start data = decoder.scanFrom second start data := by
    intro first
    induction first with
    | zero =>
        intro second start data firstEnough _secondEnough
        have empty : data = [] := List.length_eq_zero_iff.mp (Nat.le_zero.mp firstEnough)
        subst data
        cases second with
        | zero => rfl
        | succ second => simp only [scanFrom,decoder.decode_nil]
    | succ first ih =>
        intro second start data firstEnough secondEnough
        cases decoded : decoder.decode data with
        | none =>
            cases second with
            | zero => simp only [scanFrom,decoded]
            | succ second => simp only [scanFrom,decoded]
        | some found =>
            obtain ⟨item,size⟩ := found
            have low := decoder.positive decoded
            have high := decoder.bounded decoded
            cases second with
            | zero => omega
            | succ second =>
                have shorter : (data.drop size).length ≤ first := by
                  rw [List.length_drop]
                  omega
                have shorter' : (data.drop size).length ≤ second := by
                  rw [List.length_drop]
                  omega
                simp only [scanFrom,decoded]
                rw [ih second (start + size) (data.drop size) shorter shorter']
  exact stable fuel data.length start data enough (Nat.le_refl _)

theorem pieces_of_decode_none (start : Nat) (stopped : decoder.decode data = none) :
    decoder.pieces start data = [] := by
  rw [← decoder.scanFrom_eq_pieces (data.length + 1) start data (Nat.le_succ _)]
  simp only [scanFrom,stopped]

theorem pieces_of_decode_some {item : α} {size : Nat} (start : Nat)
    (decoded : decoder.decode data = some (item,size)) :
    decoder.pieces start data =
      { item := item, start := start, stop := start + size } ::
        decoder.pieces (start + size) (data.drop size) := by
  rw [← decoder.scanFrom_eq_pieces (data.length + 1) start data (Nat.le_succ _)]
  simp only [scanFrom,decoded]
  rw [decoder.scanFrom_eq_pieces]
  rw [List.length_drop]
  omega

theorem pieces_nil (start : Nat) : decoder.pieces start [] = [] :=
  decoder.pieces_of_decode_none start decoder.decode_nil

theorem scan_induction {motive : Nat → List β → Prop}
    (stopped : ∀ start data, decoder.decode data = none → motive start data)
    (step : ∀ start data item size, decoder.decode data = some (item,size) →
      motive (start + size) (data.drop size) → motive start data)
    (start : Nat) (data : List β) : motive start data := by
  have bySize : ∀ bound start (data : List β), data.length ≤ bound → motive start data := by
    intro bound
    induction bound with
    | zero =>
        intro start data short
        have empty : data = [] := List.length_eq_zero_iff.mp (Nat.le_zero.mp short)
        subst data
        exact stopped start [] decoder.decode_nil
    | succ bound ih =>
        intro start data short
        cases decoded : decoder.decode data with
        | none => exact stopped start data decoded
        | some found =>
            obtain ⟨item,size⟩ := found
            have low := decoder.positive decoded
            have high := decoder.bounded decoded
            apply step start data item size decoded
            apply ih
            rw [List.length_drop]
            omega
  exact bySize data.length start data (Nat.le_refl _)

end HeadDecoder

/-- Consecutive nonempty intervals that cover `start..stop` without gap or overlap. -/
def Tiles : Nat → Nat → List (Nat × Nat) → Prop
  | start, stop, [] => start = stop
  | start, stop, (left,right) :: rest => left = start ∧ left < right ∧ Tiles right stop rest

/-- The position after the last piece; `start` when there is none. -/
def endOf (start : Nat) (found : List (Piece α)) : Nat :=
  match found.getLast? with
  | none => start
  | some last => last.stop

@[simp] theorem endOf_nil (start : Nat) : endOf start ([] : List (Piece α)) = start := rfl

theorem endOf_cons (start : Nat) (first : Piece α) (rest : List (Piece α)) :
    endOf start (first :: rest) = endOf first.stop rest := by
  cases rest with
  | nil => rfl
  | cons second more => simp only [endOf,List.getLast?_cons,Option.getD_some]

namespace HeadDecoder

variable (decoder : HeadDecoder β α)

theorem endOf_pieces_le (start : Nat) (data : List β) :
    start ≤ endOf start (decoder.pieces start data) ∧
      endOf start (decoder.pieces start data) ≤ start + data.length := by
  induction start, data using decoder.scan_induction with
  | stopped start data stopped =>
      rw [decoder.pieces_of_decode_none start stopped,endOf_nil]
      omega
  | step start data item size decoded ih =>
      have high := decoder.bounded decoded
      rw [decoder.pieces_of_decode_some start decoded,endOf_cons]
      rw [List.length_drop] at ih
      change start ≤ endOf (start + size) _ ∧ endOf (start + size) _ ≤ _
      omega

theorem pieces_tile (start : Nat) (data : List β) :
    Tiles start (endOf start (decoder.pieces start data))
      ((decoder.pieces start data).map fun piece => (piece.start,piece.stop)) := by
  induction start, data using decoder.scan_induction with
  | stopped start data stopped =>
      rw [decoder.pieces_of_decode_none start stopped]
      exact rfl
  | step start data item size decoded ih =>
      have low := decoder.positive decoded
      rw [decoder.pieces_of_decode_some start decoded,endOf_cons]
      refine ⟨rfl,?_,ih⟩
      change start < start + size
      omega

theorem decode_interval (start : Nat) (data : List β) :
    ∀ piece ∈ decoder.pieces start data,
      start ≤ piece.start ∧ piece.start ≤ piece.stop ∧ piece.stop ≤ start + data.length ∧
        decoder.decode ((data.drop (piece.start - start)).take (piece.stop - piece.start)) =
          some (piece.item,piece.stop - piece.start) := by
  induction start, data using decoder.scan_induction with
  | stopped start data stopped =>
      intro piece member
      rw [decoder.pieces_of_decode_none start stopped] at member
      cases member
  | step start data item size decoded ih =>
      have high := decoder.bounded decoded
      intro piece member
      rw [decoder.pieces_of_decode_some start decoded] at member
      rcases List.mem_cons.mp member with same | later
      · subst piece
        have alone := decoder.localized decoded []
        rw [List.append_nil] at alone
        have zeroed : start - start = 0 := by omega
        have width : start + size - start = size := by omega
        refine ⟨Nat.le_refl _,Nat.le_add_right _ _,by simpa using high,?_⟩
        simp only [zeroed,width,List.drop_zero]
        exact alone
      · obtain ⟨startLe,ordered,stopLe,found⟩ := ih piece later
        rw [List.length_drop] at stopLe
        rw [List.drop_drop] at found
        have offset : size + (piece.start - (start + size)) = piece.start - start := by omega
        rw [offset] at found
        exact ⟨by omega,ordered,by omega,found⟩

theorem pieces_prefix_append (start : Nat) (data rest : List β) :
    decoder.pieces start
        (data.take (endOf start (decoder.pieces start data) - start) ++ rest) =
      decoder.pieces start data ++
        decoder.pieces (endOf start (decoder.pieces start data)) rest := by
  induction start, data using decoder.scan_induction with
  | stopped start data stopped =>
      rw [decoder.pieces_of_decode_none start stopped,endOf_nil,Nat.sub_self,List.take_zero,
        List.nil_append,List.nil_append]
  | step start data item size decoded ih =>
      have high := decoder.bounded decoded
      have later := (decoder.endOf_pieces_le (start + size) (data.drop size)).1
      rw [decoder.pieces_of_decode_some start decoded,endOf_cons]
      change decoder.pieces start
          (data.take (endOf (start + size) (decoder.pieces (start + size) (data.drop size)) -
            start) ++ rest) = _
      generalize endEq :
        endOf (start + size) (decoder.pieces (start + size) (data.drop size)) = stop at *
      have split : data.take (stop - start) =
          data.take size ++ (data.drop size).take (stop - (start + size)) := by
        have sum : stop - start = size + (stop - (start + size)) := by omega
        rw [sum,List.take_add]
      have front := decoder.localized decoded
        ((data.drop size).take (stop - (start + size)) ++ rest)
      rw [← List.append_assoc,← split] at front
      rw [decoder.pieces_of_decode_some start front,List.cons_append,← ih]
      have sizeEq : (data.take size).length = size := by
        rw [List.length_take]
        omega
      rw [split,List.append_assoc,List.drop_append_of_le_length (by omega),
        List.drop_of_length_le (by omega),List.nil_append]

end HeadDecoder

/-- Whenever the decoder meets an encoding it returns what was encoded. -/
structure Codec (β α γ : Type) where
  decoder : HeadDecoder β α
  encode : γ → List β
  view : γ → α
  decode_encode : ∀ record rest,
    decoder.decode (encode record ++ rest) = some (view record,(encode record).length)

namespace Codec

variable {γ : Type} (codec : Codec β α γ)

def encodeAll (records : List γ) : List β :=
  (records.map codec.encode).flatten

/-- Where the records of an encoded stream lie when it begins at `start`. -/
def placed : Nat → List γ → List (Piece α)
  | _, [] => []
  | start, record :: rest =>
      { item := codec.view record
        start := start
        stop := start + (codec.encode record).length } ::
        placed (start + (codec.encode record).length) rest

/-- The longest initial run of records whose encodings fit before `cut`. -/
def wholeRecords : List γ → Nat → List γ
  | [], _ => []
  | record :: rest, cut =>
      if (codec.encode record).length ≤ cut then
        record :: wholeRecords rest (cut - (codec.encode record).length)
      else
        []

theorem encodeAll_cons (record : γ) (rest : List γ) :
    codec.encodeAll (record :: rest) = codec.encode record ++ codec.encodeAll rest := by
  simp only [encodeAll,List.map_cons,List.flatten_cons]

theorem map_item_placed (start : Nat) (records : List γ) :
    (codec.placed start records).map Piece.item = records.map codec.view := by
  induction records generalizing start with
  | nil => rfl
  | cons record rest ih =>
      simp only [placed,List.map_cons,ih]

theorem pieces_encodeAll_append (start : Nat) (records : List γ) (rest : List β) :
    codec.decoder.pieces start (codec.encodeAll records ++ rest) =
      codec.placed start records ++
        codec.decoder.pieces (start + (codec.encodeAll records).length) rest := by
  induction records generalizing start with
  | nil =>
      simp only [encodeAll,List.map_nil,List.flatten_nil,List.nil_append,placed,
        List.length_nil,Nat.add_zero]
  | cons record more ih =>
      have front := codec.decode_encode record (codec.encodeAll more ++ rest)
      rw [codec.encodeAll_cons,List.append_assoc,
        codec.decoder.pieces_of_decode_some start front,List.drop_left,ih,placed,
        List.cons_append,List.length_append,Nat.add_assoc]

theorem pieces_take_encodeAll (start : Nat) (records : List γ) (cut : Nat) :
    codec.decoder.pieces start ((codec.encodeAll records).take cut) =
      codec.placed start (codec.wholeRecords records cut) := by
  induction records generalizing start cut with
  | nil =>
      simp only [encodeAll,List.map_nil,List.flatten_nil,List.take_nil,wholeRecords,placed]
      exact codec.decoder.pieces_nil start
  | cons record more ih =>
      have front := codec.decode_encode record (codec.encodeAll more)
      rw [codec.encodeAll_cons]
      by_cases fits : (codec.encode record).length ≤ cut
      · rw [wholeRecords,if_pos fits,placed,List.take_append,
          List.take_of_length_le fits]
        have first := codec.decode_encode record
          ((codec.encodeAll more).take (cut - (codec.encode record).length))
        rw [codec.decoder.pieces_of_decode_some start first,List.drop_left,ih]
      · have torn := codec.decoder.decode_take_of_lt front (Nat.lt_of_not_le fits)
        rw [wholeRecords,if_neg fits,placed]
        exact codec.decoder.pieces_of_decode_none start torn

theorem length_encodeAll_le_of_whole {records : List γ} {cut : Nat}
    (whole : records.length ≤ (codec.wholeRecords records cut).length) :
    (codec.encodeAll records).length ≤ cut := by
  induction records generalizing cut with
  | nil => exact Nat.zero_le cut
  | cons record rest ih =>
      rw [wholeRecords] at whole
      split at whole
      · rename_i fits
        have restWhole := ih (Nat.le_of_succ_le_succ whole)
        rw [codec.encodeAll_cons,List.length_append]
        omega
      · exact absurd whole (Nat.not_succ_le_zero _)

end Codec

structure Fragment (decoder : HeadDecoder β α) where
  bytes : List β
  item : α
  decodes : decoder.decode bytes = some (item,bytes.length)

/-- Records copied byte for byte are read back wherever they are copied to. -/
def fragmentCodec (decoder : HeadDecoder β α) : Codec β α (Fragment decoder) where
  decoder := decoder
  encode := Fragment.bytes
  view := Fragment.item
  decode_encode := by
    intro fragment rest
    have localized := decoder.localized fragment.decodes rest
    rwa [List.take_length] at localized

theorem exists_fragment_of_piece (decoder : HeadDecoder β α) {piece : Piece α}
    (member : piece ∈ decoder.pieces 0 data) :
    ∃ fragment : Fragment decoder,
      fragment.bytes = (data.drop piece.start).take (piece.stop - piece.start) ∧
        fragment.item = piece.item := by
  obtain ⟨_,ordered,inside,decoded⟩ := decoder.decode_interval 0 data piece member
  rw [Nat.zero_add] at inside
  rw [Nat.sub_zero] at decoded
  have width : ((data.drop piece.start).take (piece.stop - piece.start)).length =
      piece.stop - piece.start := by
    rw [List.length_take,List.length_drop]
    omega
  refine ⟨{ bytes := _, item := piece.item, decodes := ?_ },rfl,rfl⟩
  rw [width]
  exact decoded

theorem exists_fragments_of_pieces (decoder : HeadDecoder β α) {found : List (Piece α)}
    (members : ∀ piece ∈ found, piece ∈ decoder.pieces 0 data) :
    ∃ fragments : List (Fragment decoder),
      (fragmentCodec decoder).encodeAll fragments =
          (found.map fun piece =>
            (data.drop piece.start).take (piece.stop - piece.start)).flatten ∧
        fragments.map Fragment.item = found.map Piece.item := by
  induction found with
  | nil => exact ⟨[],rfl,rfl⟩
  | cons piece rest ih =>
      obtain ⟨fragment,bytesEq,itemEq⟩ :=
        exists_fragment_of_piece decoder (members piece List.mem_cons_self)
      obtain ⟨fragments,restBytes,restItems⟩ :=
        ih fun later member => members later (List.mem_cons_of_mem _ member)
      refine ⟨fragment :: fragments,?_,?_⟩
      · rw [Codec.encodeAll_cons,restBytes,List.map_cons,List.flatten_cons,← bytesEq]
        rfl
      · rw [List.map_cons,List.map_cons,itemEq,restItems]

end RecordScan
