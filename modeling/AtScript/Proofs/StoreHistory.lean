import AtScript.Proofs.Output

/-! # What runs do to a dictionary

A run writes values to the store and does nothing else to it, whether it succeeds or fails on its
way; so do all runs of an engine after one another. A dictionary therefore keeps its keys in their
order, and every text that is new in it is proper.
-/

namespace AtScript.Engine

section

variable {S : Type} [Store S]

/-- The engines that come from an engine when scripts are run on it and its host changes no more
than the queues. -/
inductive Leads (engine : Engine S) : Engine S → Prop
  | refl : Leads engine engine
  | run {later : Engine S} (hleads : Leads engine later) (fuel : Nat) (script : String) :
      Leads engine (later.runWithin fuel script).engine
  | queues {later : Engine S} (hleads : Leads engine later) (inbox sent : List String) :
      Leads engine { later with inbox := inbox, sent := sent }

theorem Leads.writes {engine later : Engine S} (hleads : engine.Leads later) :
    Store.Writes engine.store later.store := by
  induction hleads with
  | refl => exact .refl
  | run hleads fuel script ih => exact ih.trans (runWithin_evolves fuel _ script).store
  | queues hleads inbox sent ih => exact ih

end

/-- After a run, whether it succeeds or not, a dictionary has all its keys in their old order and
behind them new ones, none of them twice. The raw text of a key is the one it had before, or the
null text, or a text that is neither blank nor, apart from white space and letter case, the null
text. A dictionary that has only texts of the last two kinds has no others after any number of
runs. -/
theorem run_keeps_keys_and_proper_texts (engine : Engine Dictionary) (fuel : Nat)
    (script : String) :
    (∃ fresh, (engine.runWithin fuel script).engine.store.keys = engine.store.keys ++ fresh ∧
      (engine.store.keys ++ fresh).Nodup) ∧
    (∀ key ∈ (engine.runWithin fuel script).engine.store.keys, ∃ text,
      (engine.runWithin fuel script).engine.store.get? key = some text ∧
        (engine.store.get? key = some text ∨ text = "null" ∨
          Text.isBlank text = false ∧ Text.sameIgnoringCase (Text.trim text) "null" = false)) ∧
    (Store.Proper engine.store → ∀ later, engine.Leads later → Store.Proper later.store) := by
  have hwrites := (runWithin_evolves fuel engine script).store
  refine ⟨?_, fun key hkey => ?_, fun hproper later hleads => hleads.writes.proper hproper⟩
  · obtain ⟨fresh, hfresh⟩ := Dictionary.keys_prefix_of_writes hwrites
    refine ⟨fresh, hfresh.symm, ?_⟩
    rw [hfresh]
    exact Dictionary.nodup_keys _
  · rw [Dictionary.mem_keys] at hkey
    obtain ⟨text, htext⟩ := Option.isSome_iff_exists.mp hkey
    exact ⟨text, htext, hwrites.get?_eq_or_isProper htext⟩

/-- A script that swaps a key with a new one, clears it and then fails. -/
theorem dictionary_after_failing_swap :
    let engine := Engine.new (Dictionary.empty.insert "a" " x ") {}
    let after := (engine.runWithin 9 "@swap(a,b) @clearlist(a) @div(1,0)").engine
    Store.Proper engine.store ∧ after.store.keys = ["a", "b"] ∧
      after.store.get? "a" = some "null" ∧ after.store.get? "b" = some " x " ∧
      Store.Proper after.store := by
  intro engine after
  have hproper : Store.Proper engine.store := by
    intro key text htext
    have hinsert := Dictionary.get?_insert Dictionary.empty "a" " x " key
    rw [show (Dictionary.empty.insert "a" " x ").get? key = some text from htext] at hinsert
    split at hinsert
    · cases hinsert
      decide +kernel
    · cases hinsert
  have hleads : engine.Leads after := .run .refl 9 _
  have hlater := (run_keeps_keys_and_proper_texts engine 9 "").2.2 hproper after hleads
  exact ⟨hproper, by decide +kernel, by decide +kernel, by decide +kernel, hlater⟩

end AtScript.Engine
