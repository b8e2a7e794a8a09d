import AtScript.Proofs.Replacement
import AtScript.Proofs.StoredNames
import Mathlib.Data.List.Infix

/-! # Parameters of stored scripts

A call of a stored script puts its arguments in the place of the declared parameters, one after the
other over the whole text. So an argument that holds the placeholder of a later parameter, or that
completes one together with what stands around it, is replaced in turn. Where the arguments form no
placeholder, the script that is run is the one with all parameters replaced at once.
-/

namespace AtScript

namespace Text

/-- The contiguous parts of a text. -/
def parts (chars : List Char) : List (List Char) :=
  chars.tails.flatMap List.inits

theorem mem_parts_iff (part chars : List Char) : part ∈ parts chars ↔ part <:+: chars := by
  simp only [parts, List.mem_flatMap, List.mem_tails, List.mem_inits,
    List.infix_iff_prefix_suffix, and_comm]

instance (bindings : List (List Char × List Char)) (pattern chars : List Char) :
    Decidable (Forms bindings pattern chars) :=
  decidable_of_iff (∃ part ∈ parts chars, ¬pattern <:+: part ∧
    pattern <:+: replaceEach bindings part) (by simp only [mem_parts_iff, Forms])

/-- Patterns that begin with a mark overlap only where the mark occurs again. -/
theorem not_overlaps_of_notMem {mark : Char} {first : List Char} (hmark : mark ∉ first)
    (second : List Char) : ¬Overlaps (mark :: first) (mark :: second) := by
  rintro ⟨tail, hne, hsuffix, hproper, hmeets⟩
  have htail : tail <:+ first := (List.suffix_cons_iff.mp hsuffix).resolve_left hproper
  cases tail with
  | nil => exact hne rfl
  | cons c rest =>
      have hc : c = mark := by
        rcases hmeets with hbegins | hbegins
        · exact (List.cons_prefix_cons.mp hbegins).1
        · exact (List.cons_prefix_cons.mp hbegins).1.symm
      exact hmark (hc ▸ htail.subset List.mem_cons_self)

end Text

namespace Exec

/-- What stands for a parameter in a stored script. -/
def placeholder (name : String) : List Char :=
  '$' :: name.toList

/-- The placeholders of some parameters, with the characters that take their place. -/
def placeholders (bindings : List (String × String)) : List (List Char × List Char) :=
  bindings.map fun binding => (placeholder binding.1, binding.2.toList)

/-- A script with each parameter, after a dollar sign, replaced by its argument, all at once. -/
def bindAtOnce (script : String) (bindings : List (String × String)) : String :=
  String.ofList (Text.replaceEach (placeholders bindings) script.toList)

theorem toList_bindParameters (script : String) (bindings : List (String × String)) :
    (bindParameters script bindings).toList =
      (placeholders bindings).foldl
        (fun text binding => Text.replaceFrom binding.1 binding.2 0 text) script.toList := by
  induction bindings generalizing script with
  | nil => rfl
  | cons binding bindings ih =>
      have hdollar : ("$" ++ binding.1).toList = placeholder binding.1 := by
        rw [String.toList_append]
        rfl
      have hpattern : "$" ++ binding.1 ≠ "" := by
        intro hempty
        rw [hempty] at hdollar
        cases hdollar
      rw [bindParameters, List.foldl_cons, ← bindParameters, ih,
        Text.toList_replaceAll _ _ _ hpattern, hdollar]
      rfl

theorem keepApart_placeholders {names values : List String} (hlength : values.length = names.length)
    (hdistinct : names.Nodup)
    (hbegins : ∀ first ∈ names, ∀ second ∈ names,
      first.toList <+: second.toList → first = second)
    (hoverlap : ∀ first ∈ names, ∀ second ∈ names,
      ¬Text.Overlaps (placeholder first) (placeholder second)) :
    Text.KeepApart ((placeholders (names.zip values)).map Prod.fst) := by
  have hnames : (placeholders (names.zip values)).map Prod.fst = names.map placeholder := by
    rw [placeholders, List.map_map]
    change (names.zip values).map (placeholder ∘ Prod.fst) = _
    rw [← List.map_map, List.map_fst_zip (Nat.le_of_eq hlength.symm)]
  have hinjective : Function.Injective placeholder := fun first second hsame =>
    String.toList_inj.mp (List.cons.inj hsame).2
  rw [hnames]
  refine ⟨hdistinct.map hinjective, ?_, ?_, ?_⟩
  · rintro _ hpattern rfl
    obtain ⟨name, -, hname⟩ := List.mem_map.mp hpattern
    cases hname
  · intro first hfirst second hsecond hle
    obtain ⟨name, hname, rfl⟩ := List.mem_map.mp hfirst
    obtain ⟨other, hother, rfl⟩ := List.mem_map.mp hsecond
    rw [hbegins name hname other hother (List.cons_prefix_cons.mp hle).2]
  · intro first hfirst second hsecond
    obtain ⟨name, hname, rfl⟩ := List.mem_map.mp hfirst
    obtain ⟨other, hother, rfl⟩ := List.mem_map.mp hsecond
    exact hoverlap name hname other hother

/-- Parameters can be bound one after the other in any order, where none of their placeholders is
formed. -/
theorem bindParameters_eq_bindAtOnce {script : String} {names values : List String}
    (hapart : Text.KeepApart ((placeholders (names.zip values)).map Prod.fst))
    (hforms : ∀ name ∈ names,
      ¬Text.Forms (placeholders (names.zip values)) (placeholder name) script.toList)
    {bindings : List (String × String)} (hperm : bindings.Perm (names.zip values)) :
    bindParameters script bindings = bindAtOnce script (names.zip values) := by
  apply String.toList_inj.mp
  rw [toList_bindParameters, bindAtOnce, String.toList_ofList]
  refine hapart.foldl_replaceFrom_perm ?_ (hperm.map _)
  intro binding hmem
  obtain ⟨⟨name, value⟩, hpair, rfl⟩ := List.mem_map.mp hmem
  exact hforms name (List.of_mem_zip hpair).1

/-! ## Calls -/

variable {S : Type} [Store S]

theorem command_storedCall {fuel : Nat} {call : Token} {rest after : List Token}
    {frame middle : Frame S} {key script : String} {others : List (String × String)}
    {names values : List String} (hkind : call.kind = .call) (hat : call.hasAt = true)
    (hkeyword : Keyword.ofToken? call = none)
    (hentry : Store.entriesFrom frame.engine.store call.text = (key, script) :: others)
    (hnames : parameters ((Store.afterStart? call.text key).getD []) = names)
    (harguments : arguments fuel (command fuel) call rest frame = .ok (values, after) middle)
    (hlength : values.length = names.length) :
    command (fuel + 1) (call :: rest) frame =
      (do nested (command fuel) (bindParameters script (names.zip values)); return after)
        middle := by
  have hcommand : call.isCommand = true := by
    rw [Token.isCommand, hkind]
    exact hat
  have hstore : (store : Exec S S) frame = .ok frame.engine.store frame := rfl
  have harity : checkArity call (.exactly names.length) values.length middle = .ok () middle := by
    rw [checkArity, if_pos (by simp [Arity.accepts, Arity.exactly, hlength])]
    rfl
  rw [command_stored hcommand hkeyword, storedCall, bind_apply, hstore]
  simp only [hkind, if_true, hentry, hnames, bind_apply, harguments, harity]

/-- A call of a stored script runs the script with each placeholder replaced by the argument of its
parameter, all at once, if the names of the parameters are distinct and none begins with another, no
two placeholders can overlap, and putting the arguments in forms no placeholder that was not there.
The order of the parameters does not matter then. -/
theorem stored_call_binds_at_once {fuel : Nat} {call : Token} {rest after : List Token}
    {frame middle : Frame S} {key script : String} {others : List (String × String)}
    {names values : List String} (hkind : call.kind = .call) (hat : call.hasAt = true)
    (hkeyword : Keyword.ofToken? call = none)
    (hentry : Store.entriesFrom frame.engine.store call.text = (key, script) :: others)
    (hnames : parameters ((Store.afterStart? call.text key).getD []) = names)
    (hdistinct : names.Nodup)
    (hbegins : ∀ first ∈ names, ∀ second ∈ names,
      first.toList <+: second.toList → first = second)
    (hoverlap : ∀ first ∈ names, ∀ second ∈ names,
      ¬Text.Overlaps (placeholder first) (placeholder second))
    (harguments : arguments fuel (command fuel) call rest frame = .ok (values, after) middle)
    (hlength : values.length = names.length)
    (hforms : ∀ name ∈ names,
      ¬Text.Forms (placeholders (names.zip values)) (placeholder name) script.toList) :
    command (fuel + 1) (call :: rest) frame =
        (do nested (command fuel) (bindAtOnce script (names.zip values)); return after) middle ∧
      ∀ bindings : List (String × String), bindings.Perm (names.zip values) →
        bindParameters script bindings = bindAtOnce script (names.zip values) := by
  have hapart := keepApart_placeholders hlength hdistinct hbegins hoverlap
  refine ⟨?_, fun bindings hperm => bindParameters_eq_bindAtOnce hapart hforms hperm⟩
  rw [command_storedCall hkind hat hkeyword hentry hnames harguments hlength,
    bindParameters_eq_bindAtOnce hapart hforms (List.Perm.refl _)]

/-- An engine with a stored script of two parameters. -/
def samplePairFrame : Frame Dictionary :=
  ⟨.new (Store.insert Dictionary.empty "@pair(a,b)" "$b $a") {}, ""⟩

/-- Arguments that spell the name of a parameter, or have a dollar sign, do no harm by
themselves. -/
theorem stored_call_in_samplePairFrame :
    let call : Token := ⟨.call, "@pair(", ⟨0, 6⟩⟩
    let rest : List Token := [⟨.word, "b", ⟨6, 1⟩⟩, ⟨.comma, ",", ⟨7, 1⟩⟩,
      ⟨.quoted, "\"$c\"", ⟨8, 4⟩⟩, ⟨.close, ")", ⟨12, 1⟩⟩]
    arguments 8 (command 8) call rest samplePairFrame =
        .ok (["b", "$c"], []) samplePairFrame ∧
      (∀ name ∈ ["a", "b"], ¬Text.Forms (placeholders (["a", "b"].zip ["b", "$c"]))
        (placeholder name) "$b $a".toList) ∧
      command 9 (call :: rest) samplePairFrame =
        (do nested (command 8) "$c b"; return []) samplePairFrame := by
  intro call rest
  have harguments : arguments 8 (command 8) call rest samplePairFrame =
      .ok (["b", "$c"], []) samplePairFrame := by with_unfolding_all rfl
  have hforms : ∀ name ∈ ["a", "b"], ¬Text.Forms (placeholders (["a", "b"].zip ["b", "$c"]))
      (placeholder name) "$b $a".toList := by decide +kernel
  have hoverlap : ∀ first ∈ ["a", "b"], ∀ second ∈ ["a", "b"],
      ¬Text.Overlaps (placeholder first) (placeholder second) := by
    have hdollar : ∀ first ∈ ["a", "b"], '$' ∉ first.toList := by decide
    exact fun first hfirst second _ => Text.not_overlaps_of_notMem (hdollar first hfirst) _
  have hcall := (@stored_call_binds_at_once _ _ 8 call rest [] samplePairFrame samplePairFrame
    "@pair(a,b)" "$b $a" [] ["a", "b"] ["b", "$c"] rfl (by decide) (by decide +kernel)
    (by decide +kernel) (by decide +kernel) (by decide) (by decide) hoverlap harguments rfl
    hforms).1
  have hscript : bindAtOnce "$b $a" (["a", "b"].zip ["b", "$c"]) = "$c b" := by decide +kernel
  rw [hscript] at hcall
  exact ⟨harguments, hforms, hcall⟩

end Exec

/-- An argument that holds the placeholder of a later parameter is replaced again, and so is one
that completes such a placeholder. With the parameters declared in another order, it stays. -/
theorem Engine.argument_is_replaced_again :
    let engine := Engine.new (Dictionary.empty.insert "@m(x,y)" "@write($x)") {}
    let swapped := Engine.new (Dictionary.empty.insert "@m(y,x)" "@write($x)") {}
    Exec.parameters "x,y)".toList = ["x", "y"] ∧
      Exec.bindAtOnce "@write($x)" (["x", "y"].zip ["$y", "2"]) = "@write($y)" ∧
      Exec.bindParameters "@write($x)" (["x", "y"].zip ["$y", "2"]) = "@write(2)" ∧
      (engine.runWithin 9 "@m(\"$y\",2)").output = some "2" ∧
      (swapped.runWithin 9 "@m(2,\"$y\")").output = some "$y" ∧
      Exec.bindAtOnce "@write($$x)" (["x", "y"].zip ["y", "2"]) = "@write($y)" ∧
      Exec.bindParameters "@write($$x)" (["x", "y"].zip ["y", "2"]) = "@write(2)" := by
  intro engine swapped
  refine ⟨?_, ?_, ?_, ?_, ?_, ?_, ?_⟩ <;> decide +kernel

end AtScript
