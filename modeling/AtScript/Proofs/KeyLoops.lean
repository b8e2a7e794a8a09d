import AtScript.Proofs.ByteSlices
import AtScript.Proofs.Lockstep
import AtScript.Proofs.LoopValues
import AtScript.Store.Dictionary
import Mathlib.Data.List.Forall2
import Mathlib.Data.List.Nodup

/-! # The values of a loop over keys

A loop over keys goes through what stands between a start and an end in the keys of the store. Its
values are told without reference to how they are cut out: they are the middles of the keys that
have such a middle, one for each key and in the order of the store. A start that begins with `@`
leaves open the case of ASCII letters, so several keys can have the same middle then. On a machine
the start of a key is cut off by its length in bytes; the cut never falls inside a character.
-/

namespace AtScript

/-! ## Cutting off a start and an end -/

namespace Text

/-- The characters of the first bytes stand at the start and take that many bytes. -/
theorem exists_of_takeBytes? {count : Nat} {chars head : List Char}
    (hhead : takeBytes? count chars = some head) :
    ∃ rest, chars = head ++ rest ∧ byteLength head = count := by
  induction chars generalizing count head with
  | nil =>
      cases count with
      | zero =>
          cases hhead
          exact ⟨[], rfl, rfl⟩
      | succ count => cases hhead
  | cons c chars ih =>
      cases count with
      | zero =>
          cases hhead
          exact ⟨c :: chars, rfl, rfl⟩
      | succ count =>
          rw [takeBytes?] at hhead
          split at hhead
          next hfits =>
            obtain ⟨more, hmore, rfl⟩ := Option.map_eq_some_iff.mp hhead
            obtain ⟨rest, rfl, hlength⟩ := ih hmore
            refine ⟨rest, rfl, ?_⟩
            rw [byteLength, hlength]
            omega
          next => cases hhead

end Text

namespace Store

/-- Whether a text counts as a given start. The case of ASCII letters does not matter for a start
that begins with `@`. -/
def CountsAs (start head : String) : Prop :=
  if start.front? = some '@' then Text.sameIgnoringCase head start = true else head = start

instance (start head : String) : Decidable (CountsAs start head) :=
  inferInstanceAs (Decidable (ite _ _ _))

theorem countsAs_of_at {start head : String} (hat : start.front? = some '@') :
    CountsAs start head ↔ Text.sameIgnoringCase head start = true := by
  rw [CountsAs, if_pos hat]

theorem countsAs_of_ne {start head : String} (hplain : start.front? ≠ some '@') :
    CountsAs start head ↔ head = start := by
  rw [CountsAs, if_neg hplain]

/-- What counts as a start takes as many bytes. -/
theorem CountsAs.utf8ByteSize_eq {start head : String} (hcounts : CountsAs start head) :
    head.utf8ByteSize = start.utf8ByteSize := by
  rw [CountsAs] at hcounts
  split at hcounts
  · rw [Text.sameIgnoringCase, Bool.and_eq_true, beq_iff_eq] at hcounts
    exact hcounts.1
  · rw [hcounts]

theorem afterStart?_eq_some_iff (start key : String) (rest : List Char) :
    afterStart? start key = some rest ↔
      ∃ head, CountsAs start head ∧ key = head ++ String.ofList rest := by
  simp only [← String.toList_inj, String.toList_append, String.toList_ofList]
  rw [afterStart?, ← String.front?_eq]
  by_cases hat : start.front? = some '@'
  · have hfold (head : String) : Text.foldCase head = Text.foldCase start ↔
        head.toList.map Char.toLower = start.toList.map Char.toLower := by
      rw [← String.toList_inj, Text.foldCase, Text.foldCase, String.toList_map, String.toList_map]
    simp only [countsAs_of_at hat, hat, beq_self_eq_true, if_true,
      Text.dropPrefixIgnoringCase?_eq_some_iff, Text.sameIgnoringCase_iff, hfold]
    constructor
    · rintro ⟨head, hhead, hkey⟩
      exact ⟨String.ofList head, by rwa [String.toList_ofList], by rwa [String.toList_ofList]⟩
    · rintro ⟨head, hhead, hkey⟩
      exact ⟨head.toList, hhead, hkey⟩
  · simp only [countsAs_of_ne hat, hat, beq_iff_eq, if_false, Text.dropPrefix?_eq_some_iff,
      exists_eq_left]

end Store

namespace Exec

variable {S : Type} [Store S]

/-! ## The middle of a key -/

/-- Whether a key is made up of a start, a middle and an end. -/
def HasMiddle (start ending key middle : String) : Prop :=
  ∃ head, Store.CountsAs start head ∧ key = head ++ middle ++ ending

/-- What stands between a start and an end in a key that has both. -/
def keyMiddle? (start ending key : String) : Option String :=
  ((Store.afterStart? start key).bind (Text.dropSuffix? ending.toList)).map String.ofList

theorem keyMiddle?_eq_some_iff (start ending key middle : String) :
    keyMiddle? start ending key = some middle ↔ HasMiddle start ending key middle := by
  simp only [keyMiddle?, Option.map_eq_some_iff, Option.bind_eq_some_iff,
    Store.afterStart?_eq_some_iff, Text.dropSuffix?_eq_some_iff]
  constructor
  · rintro ⟨chars, ⟨_, ⟨head, hhead, rfl⟩, rfl⟩, rfl⟩
    refine ⟨head, hhead, ?_⟩
    rw [String.ofList_append, String.ofList_toList, String.append_assoc]
  · rintro ⟨head, hhead, rfl⟩
    refine ⟨middle.toList, ⟨middle.toList ++ ending.toList, ⟨head, hhead, ?_⟩, rfl⟩,
      String.ofList_toList⟩
    rw [String.ofList_append, String.ofList_toList, String.ofList_toList, String.append_assoc]

/-- As `keyMiddle?`, by offsets: what the start takes in bytes is compared and cut off. -/
def cutMiddle? (start ending key : String) : Option String := do
  let head ← Text.takeBytes? start.utf8ByteSize key.toList
  let rest ← Text.cutFrom? key.toList start.utf8ByteSize
  if Store.CountsAs start (String.ofList head) then
    (Text.dropSuffix? ending.toList rest).map String.ofList
  else
    none

theorem cutMiddle?_eq_some_iff (start ending key middle : String) :
    cutMiddle? start ending key = some middle ↔ HasMiddle start ending key middle := by
  simp only [cutMiddle?, Option.bind_eq_bind, Option.bind_eq_some_iff]
  constructor
  · rintro ⟨head, hhead, rest, hrest, hmiddle⟩
    obtain ⟨after, hkey, hlength⟩ := Text.exists_of_takeBytes? hhead
    rw [hkey, ← hlength, Text.cutFrom?_append, Option.some.injEq] at hrest
    split at hmiddle
    next hcounts =>
      obtain ⟨chars, hchars, rfl⟩ := Option.map_eq_some_iff.mp hmiddle
      rw [Text.dropSuffix?_eq_some_iff] at hchars
      refine ⟨String.ofList head, hcounts, ?_⟩
      apply String.toList_inj.mp
      simp [hkey, hrest, hchars]
    next => cases hmiddle
  · rintro ⟨head, hcounts, rfl⟩
    have hlength : start.utf8ByteSize = Text.byteLength head.toList := by
      rw [Text.byteLength_toList, hcounts.utf8ByteSize_eq]
    have hkey : (head ++ middle ++ ending).toList =
        head.toList ++ (middle.toList ++ ending.toList) := by
      simp
    refine ⟨head.toList, ?_, middle.toList ++ ending.toList, ?_, ?_⟩
    · rw [hkey, hlength, Text.takeBytes?_append]
    · rw [hkey, hlength, Text.cutFrom?_append]
    · rw [String.ofList_toList, if_pos hcounts,
        (Text.dropSuffix?_eq_some_iff _ _ middle.toList).mpr rfl, Option.map_some,
        String.ofList_toList]

theorem cutMiddle?_eq (start ending key : String) :
    cutMiddle? start ending key = keyMiddle? start ending key := by
  apply Option.ext
  intro middle
  rw [cutMiddle?_eq_some_iff, keyMiddle?_eq_some_iff]

/-! ## The middles of all keys -/

theorem keyParts_eq (current : S) (start ending : String) :
    keyParts current start ending = (Store.keys current).filterMap (keyMiddle? start ending) := rfl

/-- The values of a loop over keys are the middles of the keys that have one, in their order. -/
theorem forall₂_keyParts (current : S) (start ending : String) :
    ∃ visited, visited.Sublist (Store.keys current) ∧
      (∀ key, key ∈ visited ↔
        key ∈ Store.keys current ∧ ∃ middle, HasMiddle start ending key middle) ∧
      List.Forall₂ (HasMiddle start ending) visited (keyParts current start ending) := by
  refine ⟨(Store.keys current).filter fun key => (keyMiddle? start ending key).isSome,
    List.filter_sublist, fun key => ?_, ?_⟩
  · simp only [List.mem_filter, Option.isSome_iff_exists, keyMiddle?_eq_some_iff]
  · rw [keyParts_eq]
    induction Store.keys current with
    | nil => exact .nil
    | cons key keys ih =>
        cases hmiddle : keyMiddle? start ending key with
        | none => simpa [hmiddle] using ih
        | some middle =>
            rw [List.filter_cons_of_pos (by simp [hmiddle]), List.filterMap_cons_some hmiddle]
            exact .cons ((keyMiddle?_eq_some_iff start ending key middle).mp hmiddle) ih

/-- Where the start is taken as it stands, putting it and the end around the values gives the keys
back. -/
theorem map_keyParts_sublist (current : S) {start : String} (hplain : start.front? ≠ some '@')
    (ending : String) :
    ((keyParts current start ending).map (start ++ · ++ ending)).Sublist (Store.keys current) := by
  have hvisited {visited values : List String}
      (hmiddles : List.Forall₂ (HasMiddle start ending) visited values) :
      values.map (start ++ · ++ ending) = visited := by
    induction hmiddles with
    | nil => rfl
    | cons hmiddle _ ih =>
        obtain ⟨head, hcounts, rfl⟩ := hmiddle
        rw [List.map_cons, ih, (Store.countsAs_of_ne hplain).mp hcounts]
  obtain ⟨visited, hsublist, -, hmiddles⟩ := forall₂_keyParts current start ending
  rwa [hvisited hmiddles]

theorem mem_keyParts_iff (current : S) {start : String} (hplain : start.front? ≠ some '@')
    (ending middle : String) :
    middle ∈ keyParts current start ending ↔ start ++ middle ++ ending ∈ Store.keys current := by
  simp only [keyParts_eq, List.mem_filterMap, keyMiddle?_eq_some_iff, HasMiddle,
    Store.countsAs_of_ne hplain, exists_eq_left]
  constructor
  · rintro ⟨key, hkey, rfl⟩
    exact hkey
  · intro hkey
    exact ⟨_, hkey, rfl⟩

/-! ## The loop -/

/-- The parts of a loop over keys: the arguments, which are evaluated first, and the body, which is
then run for the values that the store gives at that moment. -/
theorem command_keyLoop {fuel : Nat} {header : Token} {tail tokens body remaining : List Token}
    {name start : String} {ending : Option String} {frame middle : Frame S}
    (hheader : Keyword.ofToken? header = some (.loop .keys))
    (harguments : arguments fuel (command fuel) header tail frame =
      .ok (name :: start :: ending.toList, tokens) middle)
    (hbody : Nesting.loopBody? .keys tokens = some (body, remaining)) :
    command (fuel + 1) (header :: tail) frame =
      (do
        forEach (command fuel) name body
          (keyParts middle.engine.store start (ending.getD ""))
        return remaining) middle := by
  have hrole := Token.role_eq_keyword_iff.mpr hheader
  have harity : checkArity header (Keyword.loop .keys).arity
      (name :: start :: ending.toList).length middle = .ok () middle := by
    cases ending <;> rfl
  have hvalues : loopValues .keys header.span (name :: start :: ending.toList) middle =
      .ok (name, keyParts middle.engine.store start (ending.getD "")) middle := by
    cases ending <;> rfl
  rw [command, commandWith, hrole]
  simp only [loop, iterate_eq, bind_apply, harguments, harity, hbody, hvalues]

/-- A loop over keys, given its arguments and its body, runs the body once for each of its values.
Where the start is taken as it stands, the values are exactly the texts that make a key of the store
when the start and the end are put around them, each once. Where the start begins with `@`, there is
one value for each key that has such a middle behind a start that differs from the given one at most
in the case of ASCII letters. Both are in the order of the store, which is that of the moment in
which the arguments have been evaluated; and they are what is cut out of the keys by offsets. -/
theorem key_loop_visits_matching_keys {fuel : Nat} {header : Token}
    {tail tokens body remaining : List Token} {name start : String} {ending : Option String}
    {frame middle : Frame S} (hheader : Keyword.ofToken? header = some (.loop .keys))
    (harguments : arguments fuel (command fuel) header tail frame =
      .ok (name :: start :: ending.toList, tokens) middle)
    (hbody : Nesting.loopBody? .keys tokens = some (body, remaining))
    (hunique : (Store.keys middle.engine.store).Nodup) :
    ∃ values : List String,
      command (fuel + 1) (header :: tail) frame =
        (do forEach (command fuel) name body values; return remaining) middle ∧
      (start.front? ≠ some '@' →
        values.Nodup ∧
        (∀ value, value ∈ values ↔
          start ++ value ++ ending.getD "" ∈ Store.keys middle.engine.store) ∧
        (values.map (start ++ · ++ ending.getD "")).Sublist (Store.keys middle.engine.store)) ∧
      (start.front? = some '@' →
        ∃ visited : List String,
          visited.Sublist (Store.keys middle.engine.store) ∧
          (∀ key, key ∈ visited ↔ key ∈ Store.keys middle.engine.store ∧
            ∃ head value, Text.sameIgnoringCase head start = true ∧
              key = head ++ value ++ ending.getD "") ∧
          List.Forall₂ (fun key value => ∃ head, Text.sameIgnoringCase head start = true ∧
            key = head ++ value ++ ending.getD "") visited values) ∧
      values = (Store.keys middle.engine.store).filterMap (cutMiddle? start (ending.getD "")) := by
  refine ⟨_, command_keyLoop hheader harguments hbody, fun hplain => ?_, fun hat => ?_, ?_⟩
  · have hsublist := map_keyParts_sublist middle.engine.store hplain (ending.getD "")
    exact ⟨List.Nodup.of_map _ (hsublist.nodup hunique), mem_keyParts_iff _ hplain _, hsublist⟩
  · obtain ⟨visited, hsublist, hmem, hmiddles⟩ :=
      forall₂_keyParts middle.engine.store start (ending.getD "")
    have hmiddle (key value : String) : HasMiddle start (ending.getD "") key value ↔
        ∃ head, Text.sameIgnoringCase head start = true ∧
          key = head ++ value ++ ending.getD "" := by
      simp only [HasMiddle, Store.countsAs_of_at hat]
    refine ⟨visited, hsublist, fun key => ?_,
      hmiddles.imp fun key value => (hmiddle key value).mp⟩
    rw [hmem, exists_comm]
    simp only [hmiddle]
  · rw [keyParts_eq]
    exact List.filterMap_congr fun key _ => (cutMiddle?_eq start (ending.getD "") key).symm

/-- An engine whose keys begin and end with a letter of two bytes. -/
def sampleKeyFrame : Frame Dictionary :=
  ⟨.new (["é.a.é", "é.é", "É.b.é", "é..é"].foldl (Store.insert · · "x") Dictionary.empty) {}, ""⟩

/-- The tokens of `@foreachkey(k,é.,.é) $k @endforeachkey` after the header. -/
def sampleKeyLoop : List Token :=
  [⟨.word, "k", ⟨12, 1⟩⟩, ⟨.comma, ",", ⟨13, 1⟩⟩, ⟨.word, "é.", ⟨14, 3⟩⟩, ⟨.comma, ",", ⟨17, 1⟩⟩,
   ⟨.word, ".é", ⟨18, 3⟩⟩, ⟨.close, ")", ⟨21, 1⟩⟩, ⟨.word, "$k", ⟨23, 2⟩⟩,
   ⟨.word, "@endforeachkey", ⟨26, 14⟩⟩]

/-- The start and the end do not overlap in a key that is visited, and nothing has to stand between
them. -/
theorem key_loop_in_sampleKeyFrame :
    (Store.keys sampleKeyFrame.engine.store).Nodup ∧
      ∃ values : List String,
        command 9 (⟨.call, "@foreachkey(", ⟨0, 12⟩⟩ :: sampleKeyLoop) sampleKeyFrame =
          (do
            forEach (command 8) "k" [⟨.word, "$k", ⟨23, 2⟩⟩] values
            return []) sampleKeyFrame ∧
        values.Nodup ∧
        (∀ value, value ∈ values ↔
          "é." ++ value ++ ".é" ∈ Store.keys sampleKeyFrame.engine.store) ∧
        values = ["a", ""] := by
  have hunique : (Store.keys sampleKeyFrame.engine.store).Nodup := by decide +kernel
  obtain ⟨values, hcommand, hplain, -, hcut⟩ :=
    @key_loop_visits_matching_keys _ _ 8 ⟨.call, "@foreachkey(", ⟨0, 12⟩⟩ sampleKeyLoop
      (sampleKeyLoop.drop 6) [⟨.word, "$k", ⟨23, 2⟩⟩] [] "k" "é." (some ".é") sampleKeyFrame
      sampleKeyFrame (by decide +kernel) (by with_unfolding_all rfl) (by decide +kernel) hunique
  obtain ⟨hnodup, hmem, -⟩ := hplain (by decide +kernel)
  have hvalues : (Store.keys sampleKeyFrame.engine.store).filterMap (cutMiddle? "é." ".é") =
      ["a", ""] := by
    decide +kernel
  exact ⟨hunique, values, hcommand, hnodup, hmem, hcut.trans hvalues⟩

end Exec

end AtScript
