/-
The names of the registered events.

A name is checked when its node is registered, so every event of a registry that
is reached has a name of letters, digits and underscores.  Its bytes mean
themselves in a string and in the path of a request.
-/

import Beava.Core.Lexer
import Beava.Server.Envelope
import Beava.Server.Reached
import Mathlib.Data.List.TakeWhile

namespace Beava.Server

open Beava.Core Beava.Apply Beava.Registry Beava.Wal JsonText

variable {Expr : Type} {env : Env Expr}
variable {name : String}
variable {node : PayloadNode}

theorem validateNodeName_nil {i : Nat} (noErrors : validateNodeName i node = []) :
    validateDescriptorName node.name = none := by
  unfold validateNodeName at noErrors
  split at noErrors
  · assumption
  all_goals cases noErrors

theorem accepted_name {current : RegistryInner Expr} {payload : List PayloadNode}
    {validated : ValidatedPayload Expr} (accepted : Accepted env current payload validated)
    (member : node ∈ payload) : validateDescriptorName node.name = none := by
  obtain ⟨⟨⟨⟨-,nodes⟩,-⟩,-⟩,-⟩ := accepted.rules
  obtain ⟨position,inBounds,atPosition⟩ := List.mem_iff_getElem.mp member
  have listed : (node,position) ∈ payload.zipIdx := by
    rw [List.mem_zipIdx_iff_getElem?,List.getElem?_eq_getElem inBounds,atPosition]
  have noErrors := List.flatMap_eq_nil_iff.mp nodes (node,position) listed
  exact validateNodeName_nil (List.append_eq_nil_iff.mp noErrors).1

def EventNamesChecked (registry : RegistryInner Expr) : Prop :=
  ∀ (name : String) (event : EventDescriptor), registry.events[name]? = some event →
    validateDescriptorName name = none

section Step

variable {registry : RegistryInner Expr} (reached : Reached env registry)
  (checked : EventNamesChecked registry)

include reached checked

theorem remaining_namesChecked (call : RegisterCall) :
    EventNamesChecked (call.remaining env registry) := by
  intro name event found
  rw [(remaining_removed reached.wellFormed call).events] at found
  split at found
  · cases found
  · exact checked name event found

theorem applied_namesChecked {call : RegisterCall} {validated : ValidatedPayload Expr}
    {result : RegisterResult Expr} (applied : AppliedCall env registry call validated result) :
    EventNamesChecked result.registry := by
  intro name event found
  have remaining := reached.remaining call
  have accepted := applied.validates
  have stored := applyRegistration_events remaining.wellFormed accepted name
  rw [← applied.applied,found,Option.map_some] at stored
  cases old : (call.remaining env registry).events[name]? with
  | some before => exact remaining_namesChecked reached checked call name before old
  | none =>
      rw [old,Option.none_or] at stored
      cases entry : call.parsedNodes.findSome?
          (eventEntry (Batch.ofValidated (call.remaining env registry) validated) name) with
      | none =>
          rw [entry] at stored
          cases stored
      | some event =>
          obtain ⟨node,member,isEntry⟩ := List.exists_of_findSome?_eq_some entry
          cases node with
          | event node =>
              simp only [eventEntry] at isEntry
              split at isEntry
              · rename_i sameName
                rw [← sameName]
                exact accepted_name accepted member
              · cases isEntry
          | table node => cases isEntry
          | derivation node => cases isEntry

theorem step_namesChecked (call : RegisterCall) (append : AppendOutcome) :
    EventNamesChecked (dispatchRegister env registry call append).registry := by
  refine dispatchRegister_keeps checked (remaining_namesChecked reached checked call)
    fun validated applied _ => ?_
  rw [← applied.applied]
  exact applied_namesChecked reached checked applied

end Step

theorem run_namesChecked {calls : List (RegisterCall × AppendOutcome)} {registry : RegistryInner Expr}
    (reached : Reached env registry) (checked : EventNamesChecked registry) :
    EventNamesChecked (Machine.run
      (fun registry call => (dispatchRegister env registry call.1 call.2).registry) registry
        calls) := by
  induction calls generalizing registry with
  | nil => exact checked
  | cons call rest ih =>
      exact ih (reached.step call.1 call.2) (step_namesChecked reached checked call.1 call.2)

theorem registryAfter_namesChecked (env : Env Expr) (calls : List (RegisterCall × AppendOutcome)) :
    EventNamesChecked (registryAfter env calls) := by
  apply run_namesChecked reached_empty
  intro name event found
  simp only [RegistryInner.empty,Std.ExtTreeMap.getElem?_empty] at found
  cases found

theorem isWordChar_of_checked (checked : validateDescriptorName name = none) :
    ∀ ch ∈ name.toList, isWordChar ch = true := by
  intro ch member
  unfold validateDescriptorName at checked
  split at checked
  · cases checked
  · rename_i first rest chars
    split at checked
    · cases checked
    · split at checked
      · cases checked
      · split at checked
        · cases checked
        · rename_i isStart
          split at checked
          · rename_i wordChars
            rw [chars] at member
            rcases List.mem_cons.mp member with rfl | inRest
            · simp only [Bool.and_eq_true,Bool.not_eq_true',decide_eq_true_eq,not_and,
                not_not] at isStart
              cases alphabetic : isAsciiAlphabetic ch with
              | true => simp only [isWordChar,alphabetic,Bool.true_or]
              | false =>
                  rw [isStart alphabetic]
                  decide
            · exact List.all_eq_true.mp wordChars ch inRest
          · cases checked

theorem ascii_of_wordChar {ch : Char} (isWord : isWordChar ch = true) :
    ch.val.toNat < 128 := by
  simp only [isWordChar,isAsciiAlphabetic,isAsciiDigit,Bool.or_eq_true,Bool.and_eq_true,
    decide_eq_true_eq] at isWord
  rcases isWord with ((isLower | isUpper) | isDigit) | rfl
  · exact Nat.lt_of_le_of_lt (UInt32.le_iff_toNat_le.mp isLower.2) (by decide)
  · exact Nat.lt_of_le_of_lt (UInt32.le_iff_toNat_le.mp isUpper.2) (by decide)
  · exact Nat.lt_of_le_of_lt (UInt32.le_iff_toNat_le.mp isDigit.2) (by decide)
  · decide

theorem ordinary_of_checked (checked : validateDescriptorName name = none) :
    Ordinary (strAsBytes name) := by
  intro byte member
  rw [strAsBytes_eq] at member
  obtain ⟨ch,inName,isByte⟩ := List.mem_flatMap.mp member
  have isWord := isWordChar_of_checked checked ch inName
  have ascii := ascii_of_wordChar isWord
  rw [String.utf8EncodeChar,if_pos (by omega),List.mem_singleton] at isByte
  have value : byte.toNat = ch.val.toNat := by
    rw [isByte]
    exact UInt8.toNat_ofNat_of_lt' (Nat.lt_trans ascii (by decide))
  constructor
  · intro isQuote
    have sameChar : ch = '"' := by
      apply Char.ext
      apply UInt32.toNat.inj
      rw [← value,isQuote]
      rfl
    rw [sameChar] at isWord
    revert isWord
    decide
  · intro isBackslash
    have sameChar : ch = '\\' := by
      apply Char.ext
      apply UInt32.toNat.inj
      rw [← value,isBackslash]
      rfl
    rw [sameChar] at isWord
    revert isWord
    decide

theorem checked_ne_nil (checked : validateDescriptorName name = none) : name.toList ≠ [] := by
  intro isEmpty
  rw [validateDescriptorName,isEmpty] at checked
  cases checked

theorem normalise_append {lead : String} (leadPlain : '?' ∉ lead.toList)
    (checked : validateDescriptorName name = none) :
    Router.normalise (lead ++ name) = lead.toList ++ name.toList := by
  have wordChars := isWordChar_of_checked checked
  have noQuery : ∀ ch ∈ lead.toList ++ name.toList, decide (ch ≠ '?') = true := by
    intro ch member
    apply decide_eq_true
    intro isQuery
    rcases List.mem_append.mp member with inLead | inName
    · rw [isQuery] at inLead
      exact leadPlain inLead
    · have isWord := wordChars ch inName
      rw [isQuery] at isWord
      revert isWord
      decide
  rw [Router.normalise,String.toList_append,List.takeWhile_eq_self_iff.mpr noQuery,
    List.reverse_append]
  cases chars : name.toList.reverse with
  | nil => exact absurd (List.reverse_eq_nil_iff.mp chars) (checked_ne_nil checked)
  | cons last before =>
      have notSlash : ¬ decide (last = '/') = true := by
        intro isSlash
        have inName : last ∈ name.toList := by
          rw [← List.mem_reverse,chars]
          exact List.mem_cons_self
        have isWord := wordChars last inName
        rw [of_decide_eq_true isSlash] at isWord
        revert isWord
        decide
      have dropped : (last :: (before ++ lead.toList.reverse)).dropWhile (fun ch => ch = '/') =
          last :: (before ++ lead.toList.reverse) := List.dropWhile_cons_of_neg notSlash
      rw [List.cons_append,dropped,← List.cons_append,← chars,List.reverse_append,
        List.reverse_reverse,List.reverse_reverse]

theorem route_push (checked : validateDescriptorName name = none) :
    Router.route "POST" ("/push/" ++ name) = .push name := by
  have leads : Router.stripPrefix "/push/" ("/push/".toList ++ name.toList) =
      some name.toList := by
    rw [Router.stripPrefix,if_pos (List.isPrefixOf_iff_prefix.mpr (List.prefix_append _ _))]
    exact congrArg some List.drop_left
  rw [Router.route,normalise_append (by decide) checked]
  simp only [leads,Router.onMethod,if_true,String.ofList_toList]

end Beava.Server
