/-
How deep a MessagePack payload is nested.

What the scanner walks over is the encoding of a value.  So the stack of its thread
is used up exactly where the payload opens more values, each inside the one before
it, than the stack has room for.
-/

import Beava.Server.MsgpackScan

namespace Beava.Server

open Beava.Wal Checked MessagePack

variable {number : Nat}
variable {exponent : Nat} {marker : UInt8}

/-- The value that begins at the position, or the part of it that is there, is nested so deep:
behind a header and some of the values that it announces, another one begins. -/
inductive Opens (payload : List UInt8) : Nat → Nat → Prop where
  | value (pos : Nat) : Opens payload pos 1
  | held {pos depth : Nat} {value : Value} {whole : List Value}
      {header encoding rest : List UInt8} (isHeader : Header value header)
      (encodes : EncodesAll whole encoding) (few : whole.length < value.held.length)
      (isHere : payload.drop pos = header ++ (encoding ++ rest))
      (inside : Opens payload (pos + header.length + encoding.length) depth) :
      Opens payload pos (depth + 1)

/-- What stands behind the marker makes the header of a value with it. -/
def HeadersOf (marker : UInt8) : Follow → Prop
  | .bytes count => ∀ data : List UInt8, data.length = count →
      ∃ value : Value, value.held = [] ∧ Header value (marker :: data)
  | .sized width others => ∀ kind data : List UInt8, kind.length = others →
      data.length < 256 ^ width → ∃ value : Value, value.held = [] ∧
        Header value (marker :: (BigEndian.encode width data.length ++ (kind ++ data)))
  | .items count => ∀ items : List Value, items.length = count → Header (.array items) [marker]
  | .sizedItems width => ∀ items : List Value, items.length < 256 ^ width →
      Header (.array items) (marker :: BigEndian.encode width items.length)
  | .entries count => ∀ entries : List (Value × Value), entries.length = count →
      Header (.map entries) [marker]
  | .sizedEntries width => ∀ entries : List (Value × Value), entries.length < 256 ^ width →
      Header (.map entries) (marker :: BigEndian.encode width entries.length)
  | .reserved => True

/-- A signed number has every pattern of bytes. -/
theorem headersOf_int (isWidth : exponent < 4) :
    HeadersOf (UInt8.ofNat (0xD0 + exponent)) (.bytes (2 ^ exponent)) := by
  intro data length
  have encoded := BigEndian.encode_decode data
  have small := BigEndian.decode_lt data
  rw [length] at encoded small
  have modulus : (0 : Int) < 256 ^ 2 ^ exponent := pow_pos (by decide) _
  have below : (BigEndian.decode data : Int) < 256 ^ 2 ^ exponent := by exact_mod_cast small
  by_cases low : 2 * (BigEndian.decode data : Int) < 256 ^ 2 ^ exponent
  · have header := @Header.int exponent (BigEndian.decode data) isWidth ⟨by omega,low⟩
    rw [Int.emod_eq_of_lt (Int.natCast_nonneg _) below,Int.toNat_natCast,numbered,encoded]
      at header
    exact ⟨_,rfl,header⟩
  · have header := @Header.int exponent (BigEndian.decode data - 256 ^ 2 ^ exponent) isWidth
      ⟨by omega,by omega⟩
    rw [Int.sub_emod_right,Int.emod_eq_of_lt (Int.natCast_nonneg _) below,Int.toNat_natCast,
      numbered,encoded] at header
    exact ⟨_,rfl,header⟩

theorem headersOf_float (isFloat : marker = 0xCA ∨ marker = 0xCB) :
    HeadersOf marker (.bytes (if marker = 0xCA then 4 else 8)) := by
  intro data length
  have encoded := BigEndian.encode_decode data
  have small := BigEndian.decode_lt data
  rw [length] at encoded small
  rcases isFloat with rfl | rfl
  · rw [if_pos rfl] at encoded small
    refine ⟨.float32 (UInt32.ofNat (BigEndian.decode data)),rfl,?_⟩
    have header := Header.float32 (UInt32.ofNat (BigEndian.decode data))
    rwa [UInt32.toNat_ofNat_of_lt' small,encoded] at header
  · rw [if_neg (by decide)] at encoded small
    refine ⟨.float64 (UInt64.ofNat (BigEndian.decode data)),rfl,?_⟩
    have header := Header.float64 (UInt64.ofNat (BigEndian.decode data))
    rwa [UInt64.toNat_ofNat_of_lt' small,encoded] at header

theorem headersOf_uint (isWidth : exponent < 4) :
    HeadersOf (UInt8.ofNat (0xCC + exponent)) (.bytes (2 ^ exponent)) := by
  intro data length
  have encoded := BigEndian.encode_decode data
  have fits := BigEndian.decode_lt data
  rw [length] at encoded fits
  have header := @Header.uint exponent (BigEndian.decode data) isWidth fits
  rw [numbered,encoded] at header
  exact ⟨_,rfl,header⟩

theorem headersOf_alone {value : Value} (none : value.held = []) (isHeader : Header value [marker]) :
    HeadersOf marker (.bytes 0) := by
  intro data length
  rw [List.length_eq_zero_iff.mp length]
  exact ⟨value,none,isHeader⟩

theorem exists_offset {first count number : Nat} (low : first ≤ number)
    (high : number < first + count) : ∃ offset < count, number = first + offset :=
  ⟨number - first,by omega,by omega⟩

theorem headersOf_low (low : number < 0xC4) :
    HeadersOf (UInt8.ofNat number) (follow (UInt8.ofNat number)) := by
  rcases Nat.lt_or_ge number 0x80 with isFixPos | behind
  · rw [follow_fixPos number isFixPos]
    exact headersOf_alone rfl (.fixPos isFixPos)
  rcases Nat.lt_or_ge number 0x90 with isFixMap | behind
  · obtain ⟨count,fits,rfl⟩ := @exists_offset 0x80 0x10 number behind isFixMap
    rw [follow_fixMap count fits]
    rintro entries rfl
    exact .fixMap fits
  rcases Nat.lt_or_ge number 0xA0 with isFixArray | behind
  · obtain ⟨count,fits,rfl⟩ := @exists_offset 0x90 0x10 number behind isFixArray
    rw [follow_fixArray count fits]
    rintro items rfl
    exact .fixArray fits
  rcases Nat.lt_or_ge number 0xC0 with isFixStr | behind
  · obtain ⟨count,fits,rfl⟩ := @exists_offset 0xA0 0x20 number behind isFixStr
    rw [follow_fixStr count fits]
    rintro data rfl
    exact ⟨.str data,rfl,.fixStr fits⟩
  obtain rfl | rfl | rfl | rfl : number = 0xC0 ∨ number = 0xC1 ∨ number = 0xC2 ∨ number = 0xC3 := by
    omega
  · exact headersOf_alone rfl .nil
  · exact trivial
  · exact headersOf_alone rfl .false
  · exact headersOf_alone rfl .true

theorem headersOf_sizes (low : 0xC4 ≤ number) (high : number < 0xD9) :
    HeadersOf (UInt8.ofNat number) (follow (UInt8.ofNat number)) := by
  rcases Nat.lt_or_ge number 0xC7 with isBin | behind
  · obtain ⟨exponent,isWidth,rfl⟩ := @exists_offset 0xC4 3 number low isBin
    rw [follow_bin exponent isWidth]
    intro kind data none fits
    rw [List.length_eq_zero_iff.mp none]
    exact ⟨.bin data,rfl,.bin isWidth fits⟩
  rcases Nat.lt_or_ge number 0xCA with isExt | behind
  · obtain ⟨exponent,isWidth,rfl⟩ := @exists_offset 0xC7 3 number behind isExt
    rw [follow_ext exponent isWidth]
    intro kind data one fits
    obtain ⟨kind,rfl⟩ := List.length_eq_one_iff.mp one
    exact ⟨.ext kind data,rfl,.ext isWidth fits⟩
  rcases Nat.lt_or_ge number 0xCC with isFloat | behind
  · obtain rfl | rfl : number = 0xCA ∨ number = 0xCB := by omega
    · exact headersOf_float (.inl rfl)
    · exact headersOf_float (.inr rfl)
  rcases Nat.lt_or_ge number 0xD0 with isUint | behind
  · obtain ⟨exponent,isWidth,rfl⟩ := @exists_offset 0xCC 4 number behind isUint
    rw [follow_uint exponent isWidth]
    exact headersOf_uint isWidth
  rcases Nat.lt_or_ge number 0xD4 with isInt | behind
  · obtain ⟨exponent,isWidth,rfl⟩ := @exists_offset 0xD0 4 number behind isInt
    rw [follow_int exponent isWidth]
    exact headersOf_int isWidth
  obtain ⟨exponent,isWidth,rfl⟩ := @exists_offset 0xD4 5 number behind high
  rw [follow_fixExt exponent isWidth]
  intro data length
  obtain ⟨kind,data,rfl⟩ := List.exists_cons_of_length_eq_add_one length
  exact ⟨.ext kind data,rfl,.fixExt isWidth (Nat.succ.inj length)⟩

theorem headersOf_high (low : 0xD9 ≤ number) (high : number < 0x100) :
    HeadersOf (UInt8.ofNat number) (follow (UInt8.ofNat number)) := by
  rcases Nat.lt_or_ge number 0xDC with isStr | behind
  · obtain ⟨exponent,isWidth,rfl⟩ := @exists_offset 0xD9 3 number low isStr
    rw [follow_str exponent isWidth]
    intro kind data none fits
    rw [List.length_eq_zero_iff.mp none]
    exact ⟨.str data,rfl,.str isWidth fits⟩
  rcases Nat.lt_or_ge number 0xE0 with isContainer | behind
  · obtain rfl | rfl | rfl | rfl :
        number = 0xDC ∨ number = 0xDD ∨ number = 0xDE ∨ number = 0xDF := by omega
    · exact fun items fits => .array16 fits
    · exact fun items fits => .array32 fits
    · exact fun entries fits => .map16 fits
    · exact fun entries fits => .map32 fits
  obtain ⟨value,fits,rfl⟩ := @exists_offset 0xE0 0x20 number behind high
  rw [follow_fixNeg value fits]
  exact headersOf_alone rfl (.fixNeg fits)

theorem headersOf_follow (marker : UInt8) : HeadersOf marker (follow marker) := by
  rw [← @UInt8.ofNat_toNat marker]
  have high := marker.toNat_lt
  rcases Nat.lt_or_ge marker.toNat 0xC4 with low | behind
  · exact headersOf_low low
  rcases Nat.lt_or_ge marker.toNat 0xD9 with sizes | behind'
  · exact headersOf_sizes behind sizes
  · exact headersOf_high behind' high

theorem encode_window {data : List UInt8} {offset width : Nat}
    (inside : offset + width ≤ data.length) :
    BigEndian.encode width (BigEndian.decode (window data offset width)) =
        window data offset width ∧
      BigEndian.decode (window data offset width) < 256 ^ width := by
  have length := length_window inside
  have encoded := BigEndian.encode_decode (window data offset width)
  have small := BigEndian.decode_lt (window data offset width)
  rw [length] at encoded small
  exact ⟨encoded,small⟩

theorem pairs_of_length {count : Nat} {items : List Value} (isLength : items.length = 2 * count) :
    ∃ entries : List (Value × Value), entries.length = count ∧
      (Value.map entries).held = items := by
  induction count generalizing items with
  | zero => exact ⟨[],rfl,(List.length_eq_zero_iff.mp isLength).symm⟩
  | succ count ih =>
      match items, isLength with
      | key :: value :: rest, isLength =>
          have restLength : rest.length = 2 * count := by
            simp only [List.length_cons] at isLength
            omega
          obtain ⟨entries,entriesLength,rfl⟩ := ih restLength
          exact ⟨(key,value) :: entries,congrArg (· + 1) entriesLength,rfl⟩

section Headers

variable {payload : List UInt8} {p pos : Nat}

theorem skipFollow_header (inside : p ≤ payload.length) {marker : UInt8} {follow : Follow}
    (headers : HeadersOf marker follow) :
    (∃ error, ∀ skip, skipFollow payload skip p follow = .error (.error error)) ∨
      ∃ width count, p + width ≤ payload.length ∧
        (∀ skip, skipFollow payload skip p follow = skipItems skip count (p + width)) ∧
        ∀ items : List Value, items.length = count →
          ∃ value : Value, value.held = items ∧ Header value (marker :: window payload p width) := by
  cases follow with
  | bytes count =>
      by_cases isThere : p + count ≤ payload.length
      · refine .inr ⟨count,0,isThere,?_,?_⟩
        · intro skip
          simp only [skipFollow,need_eq isThere,bind,Except.bind]
          rfl
        · intro items none
          rw [List.length_eq_zero_iff.mp none]
          exact headers _ (length_window isThere)
      · refine .inl ⟨.truncated,?_⟩
        intro skip
        simp only [skipFollow,need_truncated (Nat.not_le.mp isThere),bind,Except.bind]
  | sized width others =>
      by_cases sizeIsThere : p + (width + others) ≤ payload.length
      · have widthIsThere : p + width ≤ payload.length := by omega
        have read := @readLength_eq payload p width widthIsThere
        obtain ⟨encoded,small⟩ := encode_window widthIsThere
        generalize BigEndian.decode (window payload p width) = length at read encoded small
        by_cases isThere : p + (width + others) + length ≤ payload.length
        · refine .inr ⟨width + others + length,0,by omega,?_,?_⟩
          · intro skip
            simp only [skipFollow,need_eq sizeIsThere,read,need_eq isThere,bind,Except.bind]
            rw [← Nat.add_assoc p (width + others) length]
            rfl
          · intro items none
            have dataLength := length_window isThere
            have header := headers (window payload (p + width) others)
              (window payload (p + (width + others)) length) (length_window (by omega))
              (by rwa [dataLength])
            rw [dataLength,encoded,← Nat.add_assoc,window_append,window_append,
              ← Nat.add_assoc] at header
            rw [List.length_eq_zero_iff.mp none]
            exact header
        · refine .inl ⟨.truncated,?_⟩
          intro skip
          simp only [skipFollow,need_eq sizeIsThere,read,
            need_truncated (Nat.not_le.mp isThere),bind,Except.bind]
      · refine .inl ⟨.truncated,?_⟩
        intro skip
        simp only [skipFollow,need_truncated (Nat.not_le.mp sizeIsThere),bind,Except.bind]
  | items count =>
      exact .inr ⟨0,count,inside,fun _ => rfl,fun items length =>
        ⟨.array items,rfl,headers items length⟩⟩
  | sizedItems width =>
      by_cases isThere : p + width ≤ payload.length
      · obtain ⟨encoded,small⟩ := encode_window isThere
        refine .inr ⟨width,BigEndian.decode (window payload p width),isThere,?_,?_⟩
        · intro skip
          simp only [skipFollow,need_eq isThere,readLength_eq isThere,bind,Except.bind]
        · intro items length
          have header := headers items (length ▸ small)
          rw [length,encoded] at header
          exact ⟨.array items,rfl,header⟩
      · refine .inl ⟨.truncated,?_⟩
        intro skip
        simp only [skipFollow,need_truncated (Nat.not_le.mp isThere),bind,Except.bind]
  | entries count =>
      refine .inr ⟨0,2 * count,inside,fun skip => skipEntries_eq skip count p,?_⟩
      intro items length
      obtain ⟨entries,entriesLength,rfl⟩ := pairs_of_length length
      exact ⟨.map entries,rfl,headers entries entriesLength⟩
  | sizedEntries width =>
      by_cases isThere : p + width ≤ payload.length
      · obtain ⟨encoded,small⟩ := encode_window isThere
        refine .inr ⟨width,2 * BigEndian.decode (window payload p width),isThere,?_,?_⟩
        · intro skip
          simp only [skipFollow,need_eq isThere,readLength_eq isThere,skipEntries_eq,bind,
            Except.bind]
        · intro items length
          obtain ⟨entries,entriesLength,rfl⟩ := pairs_of_length length
          have header := headers entries (entriesLength ▸ small)
          rw [entriesLength,encoded] at header
          exact ⟨.map entries,rfl,header⟩
      · refine .inl ⟨.truncated,?_⟩
        intro skip
        simp only [skipFollow,need_truncated (Nat.not_le.mp isThere),bind,Except.bind]
  | reserved => exact .inl ⟨.decodeError,fun _ => rfl⟩

/-- At a position there is an error, or a header and then the values that it announces. -/
theorem skipMsgpackValue_cases (payload : List UInt8) (pos : Nat) :
    (∃ error, ∀ capacity,
      skipMsgpackValue payload (capacity + 1) pos = .error (.error error)) ∨
      ∃ next count, pos < next ∧ next ≤ payload.length ∧
        (∀ capacity, skipMsgpackValue payload (capacity + 1) pos =
          skipItems (skipMsgpackValue payload capacity) count next) ∧
        ∀ items : List Value, items.length = count → ∃ (value : Value) (header : List UInt8),
          value.held = items ∧ Header value header ∧ next = pos + header.length ∧
            payload.drop pos = header ++ payload.drop next := by
  by_cases inside : pos < payload.length
  · rcases @skipFollow_header payload (pos + 1) inside _ _ (headersOf_follow payload[pos]) with
      ⟨error,fails⟩ | ⟨width,count,isThere,goesOn,headers⟩
    · refine .inl ⟨error,?_⟩
      intro capacity
      rw [skipMsgpackValue_marker inside,fails]
    · refine .inr ⟨pos + 1 + width,count,by omega,isThere,?_,?_⟩
      · intro capacity
        rw [skipMsgpackValue_marker inside,goesOn]
      · intro items length
        obtain ⟨value,isHeld,isHeader⟩ := headers items length
        refine ⟨value,_,isHeld,isHeader,?_,?_⟩
        · rw [List.length_cons,length_window isThere]
          omega
        · have tail := List.take_append_drop width (payload.drop (pos + 1))
          rw [List.drop_drop] at tail
          rw [List.drop_eq_getElem_cons inside,List.cons_append,window,tail]
  · refine .inl ⟨.truncated,?_⟩
    intro capacity
    rw [skipMsgpackValue,if_pos (Nat.not_lt.mp inside)]

end Headers

/-- The scanner says what is wrong, or it is behind `least` and still in the payload. -/
def Scans (payload : List UInt8) (least : Nat) (result : Except MsgpackFailure Nat) : Prop :=
  (∃ error, result = .error (.error error)) ∨
    ∃ next, result = .ok next ∧ least ≤ next ∧ next ≤ payload.length

section Progress

variable {payload : List UInt8}

theorem skipItems_scans {skip : Nat → Except MsgpackFailure Nat} {pos : Nat}
    (inside : pos ≤ payload.length)
    (scans : ∀ p, pos ≤ p → skip p = .error .stackOverflow ∨ Scans payload (p + 1) (skip p))
    (count : Nat) :
    skipItems skip count pos = .error .stackOverflow ∨
      Scans payload pos (skipItems skip count pos) := by
  induction count generalizing pos with
  | zero => exact .inr (.inr ⟨pos,rfl,le_rfl,inside⟩)
  | succ count ih =>
      rw [skipItems]
      rcases scans pos le_rfl with overflow | ⟨error,failed⟩ | ⟨next,skipped,further,isThere⟩
      · rw [overflow]
        exact .inl rfl
      · rw [failed]
        exact .inr (.inl ⟨error,rfl⟩)
      · rw [skipped]
        rcases ih isThere (fun p behind => scans p (by omega)) with
          overflow | ⟨error,failed⟩ | ⟨last,ended,behind,isLast⟩
        · exact .inl overflow
        · exact .inr (.inl ⟨error,failed⟩)
        · exact .inr (.inr ⟨last,ended,by omega,isLast⟩)

/-- While the stack holds, there is an error or a position further on. -/
theorem skipMsgpackValue_scans (payload : List UInt8) (capacity pos : Nat) :
    skipMsgpackValue payload capacity pos = .error .stackOverflow ∨
      Scans payload (pos + 1) (skipMsgpackValue payload capacity pos) := by
  induction capacity generalizing pos with
  | zero => exact .inl rfl
  | succ capacity ih =>
      rcases skipMsgpackValue_cases payload pos with
        ⟨error,fails⟩ | ⟨next,count,further,isThere,goesOn,-⟩
      · exact .inr (.inl ⟨error,fails capacity⟩)
      · rw [goesOn capacity]
        rcases skipItems_scans isThere (fun p _ => ih p) count with
          overflow | ⟨error,failed⟩ | ⟨last,ended,behind,isLast⟩
        · exact .inl overflow
        · exact .inr (.inl ⟨error,failed⟩)
        · exact .inr (.inr ⟨last,ended,by omega,isLast⟩)

end Progress


section Depth

variable {payload : List UInt8} {capacity : Nat}

theorem skipItems_whole {skip : Nat → Except MsgpackFailure Nat}
    (passes : ∀ pos next, skip pos = .ok next → ∃ value encoding, Encodes value encoding ∧
      next = pos + encoding.length ∧ payload.drop pos = encoding ++ payload.drop next)
    {count pos next : Nat} (passed : skipItems skip count pos = .ok next) :
    ∃ values encoding, EncodesAll values encoding ∧ values.length = count ∧
      next = pos + encoding.length ∧ payload.drop pos = encoding ++ payload.drop next := by
  induction count generalizing pos with
  | zero =>
      cases passed
      exact ⟨[],[],.none,rfl,rfl,rfl⟩
  | succ count ih =>
      obtain ⟨between,skipped,later⟩ := bind_eq_ok passed
      obtain ⟨value,encoding,encodes,rfl,isHere⟩ := passes _ _ skipped
      obtain ⟨values,behind,others,rfl,rfl,follow⟩ := ih later
      refine ⟨value :: values,encoding ++ behind,encodes.cons others,rfl,?_,?_⟩
      · rw [List.length_append,Nat.add_assoc]
      · rw [isHere,follow,List.append_assoc]

theorem skipMsgpackValue_whole {pos next : Nat}
    (passed : skipMsgpackValue payload capacity pos = .ok next) :
    ∃ value encoding, Encodes value encoding ∧ next = pos + encoding.length ∧
      payload.drop pos = encoding ++ payload.drop next := by
  induction capacity generalizing pos next with
  | zero => cases passed
  | succ capacity ih =>
      rcases skipMsgpackValue_cases payload pos with
        ⟨error,fails⟩ | ⟨start,count,-,-,goesOn,headers⟩
      · rw [fails] at passed
        cases passed
      · rw [goesOn] at passed
        obtain ⟨values,encoding,held,length,rfl,follow⟩ :=
          skipItems_whole (fun _ _ => ih) passed
        obtain ⟨value,header,isHeld,isHeader,rfl,isHere⟩ := headers values length
        refine ⟨value,header ++ encoding,?_,?_,?_⟩
        · have encodes := EncodesAll.value isHeader (isHeld.symm ▸ held) .none
          rwa [List.append_nil] at encodes
        · rw [List.length_append,Nat.add_assoc]
        · rw [isHere,follow,List.append_assoc]

theorem skipItems_add (skip : Nat → Except MsgpackFailure Nat) (first second pos : Nat) :
    skipItems skip (first + second) pos = skipItems skip first pos >>= skipItems skip second := by
  induction first generalizing pos with
  | zero =>
      rw [Nat.zero_add]
      rfl
  | succ first ih =>
      rw [Nat.add_right_comm,skipItems,skipItems]
      cases skip pos with
      | error failure => rfl
      | ok next => exact ih next

theorem skipItems_stackOverflow {count pos : Nat}
    (overflow : skipItems (skipMsgpackValue payload capacity) count pos = .error .stackOverflow) :
    ∃ whole encoding, EncodesAll whole encoding ∧ whole.length < count ∧
      payload.drop pos = encoding ++ payload.drop (pos + encoding.length) ∧
      skipMsgpackValue payload capacity (pos + encoding.length) = .error .stackOverflow := by
  induction count generalizing pos with
  | zero => cases overflow
  | succ count ih =>
      rcases bind_eq_error overflow with first | ⟨next,skipped,later⟩
      · exact ⟨[],[],.none,Nat.succ_pos _,rfl,first⟩
      · obtain ⟨value,encoding,encodes,rfl,isHere⟩ := skipMsgpackValue_whole skipped
        obtain ⟨whole,behind,others,few,follow,last⟩ := ih later
        refine ⟨value :: whole,encoding ++ behind,encodes.cons others,Nat.succ_lt_succ few,?_,?_⟩
        · rw [isHere,follow,List.append_assoc,List.length_append,Nat.add_assoc]
        · rw [List.length_append,← Nat.add_assoc]
          exact last

theorem opens_of_stackOverflow {pos : Nat}
    (overflow : skipMsgpackValue payload capacity pos = .error .stackOverflow) :
    Opens payload pos (capacity + 1) := by
  induction capacity generalizing pos with
  | zero => exact .value pos
  | succ capacity ih =>
      rcases skipMsgpackValue_cases payload pos with
        ⟨error,fails⟩ | ⟨start,count,-,-,goesOn,headers⟩
      · rw [fails] at overflow
        cases overflow
      · rw [goesOn] at overflow
        obtain ⟨whole,encoding,encodes,few,follow,last⟩ := skipItems_stackOverflow overflow
        obtain ⟨value,header,isHeld,isHeader,rfl,isHere⟩ :=
          headers (List.replicate count .nil) List.length_replicate
        have held : whole.length < value.held.length := by
          rwa [isHeld,List.length_replicate]
        rw [follow] at isHere
        exact .held isHeader encodes held isHere (ih last)

theorem Opens.pos {pos depth : Nat} (opens : Opens payload pos depth) : 0 < depth := by
  cases opens with
  | value => exact Nat.one_pos
  | held => exact Nat.succ_pos _

theorem stackOverflow_of_opens {pos depth : Nat} (opens : Opens payload pos depth)
    (isDepth : depth = capacity + 1) :
    skipMsgpackValue payload capacity pos = .error .stackOverflow := by
  induction opens generalizing capacity with
  | value pos =>
      obtain rfl : capacity = 0 := by omega
      rfl
  | @held pos depth value whole header encoding rest isHeader encodes few isHere inside ih =>
      obtain ⟨less,rfl⟩ : ∃ less, capacity = less + 1 := ⟨capacity - 1,by
        have positive := inside.pos
        omega⟩
      have wholeHere : payload.drop (pos + header.length) = encoding ++ rest := by
        rw [← List.drop_drop,isHere,List.drop_left]
      obtain ⟨more,isCount⟩ := Nat.exists_eq_add_of_lt few
      rw [skip_header isHeader isHere,isCount,Nat.add_assoc,skipItems_add]
      by_cases deep : ∃ inner ∈ whole, inner.Nested (less + 1)
      · rw [skipItems_overflows encodes wholeHere deep]
        rfl
      · rw [skipItems_encodes encodes wholeHere fun inner member nested =>
          deep ⟨inner,member,nested⟩]
        have overflow := @ih less (Nat.succ.inj isDepth)
        simp only [bind,Except.bind,skipItems,overflow]

/-- The stack is used up exactly where the payload is nested deeper than it has room for. -/
theorem stackOverflow_iff {pos : Nat} :
    skipMsgpackValue payload capacity pos = .error .stackOverflow ↔
      Opens payload pos (capacity + 1) :=
  ⟨opens_of_stackOverflow,fun opens => stackOverflow_of_opens opens rfl⟩

end Depth

end Beava.Server
