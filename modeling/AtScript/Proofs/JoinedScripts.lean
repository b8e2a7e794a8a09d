import AtScript.Proofs.Context
import AtScript.Proofs.Output
import AtScript.Proofs.Places

/-! # Scripts one after the other

Two scripts with white space between them do what the second one does after the first one, if the
first one succeeds and ends outside quotes. This holds whatever branches the first one leaves open,
as a script that succeeds never looks beyond its end.
-/

namespace AtScript

variable {S : Type}

theorem Frame.eq_enter_of_leave? {frame outer : Frame S} (hleave : frame.leave? = some outer) :
    frame = outer.enter := by
  obtain ⟨⟨store, inbox, sent, options, generator, depth⟩, out⟩ := frame
  cases depth with
  | zero => cases hleave
  | succ depth =>
      cases hleave
      rfl

/-- The limit is the same for an engine that has evolved. -/
theorem Engine.Evolves.exceededLimit?_eq [Store S] {engine after : Engine S}
    (hevolves : engine.Evolves after) (out out' : String) :
    Frame.exceededLimit? ⟨after, out⟩ = Frame.exceededLimit? ⟨engine, out'⟩ := by
  simp only [Frame.exceededLimit?, hevolves.options, hevolves.depth]

namespace Exec

/-- A nested script succeeds when it is not too deep and its tokens succeed. -/
theorem nested_eq_ok {run : Runner S} {script : String} {frame after : Frame S}
    (hok : nested run script frame = .ok () after) :
    frame.exceededLimit? = none ∧
      sequenceAll run (Token.scan script) frame.enter = .ok () after.enter := by
  cases hlimit : frame.exceededLimit? with
  | some limit =>
      rw [nested_of_exceeded run hlimit] at hok
      cases hok
  | none =>
      cases hscript : sequenceAll run (Token.scan script) frame.enter with
      | ok value inner =>
          rw [nested_of_ok hlimit hscript] at hok
          cases hleave : inner.leave? with
          | none =>
              rw [hleave] at hok
              cases hok
          | some outer =>
              rw [hleave] at hok
              cases hok
              rw [Frame.eq_enter_of_leave? hleave]
              exact ⟨rfl, rfl⟩
      | error stop inner =>
          rw [nested_of_error hlimit hscript] at hok
          cases hleave : inner.leave? <;> rw [hleave] at hok <;> cases hok

variable [Store S] {fuel : Nat} {first blank : String}

/-- After a script that succeeds, the end of what follows it does not depend on how it stands there.
-/
theorem ending_nested_append (hquote : Token.endsInQuote first = false) (hne : blank ≠ "")
    (hblank : Text.isBlank blank = true) (second : String) {frame after : Frame S}
    (hlimit : after.exceededLimit? = frame.exceededLimit?)
    (hfirst : nested (command fuel) first frame = .ok () after) :
    ending (nested (command fuel) (first ++ blank ++ second) frame) =
      ending (nested (command fuel) second after) := by
  obtain ⟨hframe, htokens⟩ := nested_eq_ok hfirst
  have hlooks : ((Token.scan second).map (Token.shift (first ++ blank).utf8ByteSize)).map
      Token.look = (Token.scan second).map Token.look := by
    rw [List.map_map]
    exact List.map_congr_left fun token _ => Token.look_shift _ token
  rw [ending_nested _ _ hframe, ending_nested _ _ (hlimit.trans hframe),
    Token.scan_append hquote hne hblank, sequenceAll_append htokens,
    ending_sequenceAll_of_looks fuel hlooks]

end Exec

end AtScript
