import Mathlib.Data.List.Basic
import AtScript.Check.Finding
import AtScript.Engine.Summary
import AtScript.Text.Ascii

/-! # Line numbers count line feeds

A machine keeps the byte ranges of all lines in a table and searches it by halving, in words of 32
bits. What it finds is one more than the number of line feeds before the place, and so is the number
that listings and summaries show.
-/

namespace AtScript

namespace Text

/-! ## Bytes -/

/-- The bytes of a text in UTF-8. -/
def bytes (text : String) : List UInt8 :=
  text.toUTF8.data.toList

/-- The byte of a line feed. -/
def lineFeed : UInt8 := 10

/-- The number of line feeds among the bytes before an offset. -/
def feedsBefore (text : String) (offset : Nat) : Nat :=
  ((bytes text).take offset).count lineFeed

theorem bytes_eq (text : String) : bytes text = text.toList.flatMap String.utf8EncodeChar := by
  have hbytes : text.toByteArray = text.toList.utf8Encode := by
    rw [← String.toByteArray_ofList, String.ofList_toList]
  rw [bytes, String.toUTF8_eq_toByteArray, hbytes, List.utf8Encode]
  simp

theorem length_flatMap_utf8EncodeChar (chars : List Char) :
    (chars.flatMap String.utf8EncodeChar).length = byteLength chars := by
  induction chars with
  | nil => rfl
  | cons c rest ih =>
      rw [List.flatMap_cons, List.length_append, String.length_utf8EncodeChar, ih, byteLength]

theorem utf8EncodeChar_lineFeed : String.utf8EncodeChar '\n' = [lineFeed] := by decide

/-- No other character has the byte of a line feed. -/
theorem lineFeed_notMem {c : Char} (hc : c ≠ '\n') : lineFeed ∉ String.utf8EncodeChar c := by
  have hcode : c.val.toNat ≠ 10 := by
    intro hcode
    exact hc (Char.ext (UInt32.toNat_inj.mp hcode))
  have hother {code : Nat} (hne : code ≠ 10) (hmost : code < 256) :
      lineFeed ≠ UInt8.ofNat code := by
    intro heq
    have hnat := congrArg UInt8.toNat heq
    rw [UInt8.toNat_ofNat', Nat.mod_eq_of_lt hmost] at hnat
    exact hne hnat.symm
  -- The bytes of a longer character are at least 128.
  unfold String.utf8EncodeChar
  dsimp only
  repeat' split
  all_goals
    simp only [List.mem_cons, List.not_mem_nil, or_false, not_or]
    repeat' apply And.intro
    all_goals exact hother (by omega) (by omega)

/-! ## Where lines end -/

/-- Whether the last of some characters leaves its line open. Without characters, `begun` tells. -/
def leavesOpen (begun : Bool) (chars : List Char) : Bool :=
  chars.getLast?.elim begun (· != '\n')

theorem leavesOpen_cons (begun : Bool) (c : Char) (rest : List Char) :
    leavesOpen begun (c :: rest) = leavesOpen (c != '\n') rest := by
  rw [leavesOpen, leavesOpen, List.getLast?_cons]
  cases rest.getLast? <;> rfl

/-- A text leaves its last line open when it is empty or does not end in a line feed. -/
theorem leavesOpen_toList (text : String) :
    leavesOpen true text.toList = true ↔ text = "" ∨ text.back? ≠ some '\n' := by
  rw [leavesOpen, String.back?_eq, ← String.toList_eq_nil_iff]
  cases hlast : text.toList.getLast? with
  | none => simp
  | some c =>
      have hne : text.toList ≠ [] := by
        intro hnil
        simp [hnil] at hlast
      simp [hne]

theorem lineEndsFrom_cons_lineFeed (start : Nat) (begun : Bool) (rest : List Char) :
    lineEndsFrom start begun ('\n' :: rest) =
      (start + 1) :: lineEndsFrom (start + 1) false rest := by
  rw [lineEndsFrom, if_pos rfl]

theorem lineEndsFrom_cons_other (start : Nat) (begun : Bool) {c : Char} (hc : c ≠ '\n')
    (rest : List Char) :
    lineEndsFrom start begun (c :: rest) = lineEndsFrom (start + c.utf8Size) true rest := by
  rw [lineEndsFrom, if_neg hc]

/-- A line ends after its first byte, and at most one byte behind the text. -/
theorem bounds_of_mem_lineEndsFrom {start place : Nat} {begun : Bool} {chars : List Char}
    (hmem : place ∈ lineEndsFrom start begun chars) :
    start < place ∧ place ≤ start + byteLength chars + 1 := by
  induction chars generalizing start begun with
  | nil =>
      rw [lineEndsFrom] at hmem
      split at hmem
      · rw [List.mem_singleton.mp hmem, byteLength]
        omega
      · cases hmem
  | cons c rest ih =>
      rw [byteLength]
      by_cases hc : c = '\n'
      · subst hc
        have hsize : '\n'.utf8Size = 1 := rfl
        rw [lineEndsFrom_cons_lineFeed] at hmem
        rcases List.mem_cons.mp hmem with rfl | hmem
        · omega
        · have hbounds := ih hmem
          omega
      · rw [lineEndsFrom_cons_other start begun hc] at hmem
        have hbounds := ih hmem
        have hpos := Char.utf8Size_pos c
        omega

theorem countP_lineEndsFrom_eq_zero {start offset : Nat} (hle : offset ≤ start) (begun : Bool)
    (chars : List Char) : (lineEndsFrom start begun chars).countP (· ≤ offset) = 0 := by
  rw [List.countP_eq_zero]
  intro place hmem
  have hbounds := bounds_of_mem_lineEndsFrom hmem
  simp only [decide_eq_true_eq]
  omega

/-- The lines that have ended at a place are the line feeds before it. -/
theorem countP_lineEndsFrom (start : Nat) (begun : Bool) {chars : List Char} {more : Nat}
    (hmore : more ≤ byteLength chars) :
    (lineEndsFrom start begun chars).countP (· ≤ start + more) =
      ((chars.flatMap String.utf8EncodeChar).take more).count lineFeed := by
  induction chars generalizing start begun more with
  | nil =>
      obtain rfl : more = 0 := Nat.le_zero.mp hmore
      exact countP_lineEndsFrom_eq_zero (Nat.le_refl start) begun []
  | cons c rest ih =>
      rw [byteLength] at hmore
      rw [List.flatMap_cons, List.take_append, List.count_append, String.length_utf8EncodeChar]
      by_cases hc : c = '\n'
      · subst hc
        have hsize : '\n'.utf8Size = 1 := rfl
        rw [lineEndsFrom_cons_lineFeed, utf8EncodeChar_lineFeed, hsize]
        cases more with
        | zero =>
            rw [List.countP_cons_of_neg (by simp), Nat.add_zero,
              countP_lineEndsFrom_eq_zero (Nat.le_succ start)]
            rfl
        | succ more =>
            have hinside : more ≤ byteLength rest := by omega
            have hrest := ih (start + 1) false hinside
            have hplace : start + (more + 1) = start + 1 + more := by omega
            rw [List.countP_cons_of_pos (by simp), hplace, hrest]
            simp [Nat.add_comm]
      · have hnone : ((String.utf8EncodeChar c).take more).count lineFeed = 0 :=
          List.count_eq_zero.mpr fun hmem => lineFeed_notMem hc (List.mem_of_mem_take hmem)
        rw [lineEndsFrom_cons_other start begun hc, hnone, Nat.zero_add]
        by_cases hinside : more ≤ c.utf8Size
        · rw [countP_lineEndsFrom_eq_zero (by omega), Nat.sub_eq_zero_of_le hinside]
          rfl
        · have hbehind : more - c.utf8Size ≤ byteLength rest := by omega
          have hrest := ih (start + c.utf8Size) true hbehind
          rwa [show start + c.utf8Size + (more - c.utf8Size) = start + more by omega] at hrest

theorem length_lineEndsFrom (start : Nat) (begun : Bool) (chars : List Char) :
    (lineEndsFrom start begun chars).length =
      (chars.flatMap String.utf8EncodeChar).count lineFeed +
        if leavesOpen begun chars then 1 else 0 := by
  induction chars generalizing start begun with
  | nil => cases begun <;> rfl
  | cons c rest ih =>
      rw [List.flatMap_cons, List.count_append, leavesOpen_cons]
      by_cases hc : c = '\n'
      · subst hc
        rw [lineEndsFrom_cons_lineFeed, List.length_cons, ih, utf8EncodeChar_lineFeed,
          List.count_singleton_self]
        simp only [bne_self_eq_false]
        omega
      · rw [lineEndsFrom_cons_other start begun hc, ih,
          List.count_eq_zero.mpr (lineFeed_notMem hc), bne_iff_ne.mpr hc, Nat.zero_add]

theorem pairwise_lineEndsFrom (start : Nat) (begun : Bool) (chars : List Char) :
    (start :: lineEndsFrom start begun chars).Pairwise (· < ·) := by
  rw [List.pairwise_cons]
  refine ⟨fun place hmem => (bounds_of_mem_lineEndsFrom hmem).1, ?_⟩
  induction chars generalizing start begun with
  | nil => cases begun <;> simp [lineEndsFrom]
  | cons c rest ih =>
      by_cases hc : c = '\n'
      · subst hc
        rw [lineEndsFrom_cons_lineFeed, List.pairwise_cons]
        exact ⟨fun place hmem => (bounds_of_mem_lineEndsFrom hmem).1, ih (start + 1) false⟩
      · rw [lineEndsFrom_cons_other start begun hc]
        exact ih (start + c.utf8Size) true

/-- Inside a text, lines are counted by the line feeds before a place. -/
theorem lineAt_eq {text : String} {offset : Nat} (hoffset : offset ≤ text.utf8ByteSize) :
    lineAt text offset = 1 + feedsBefore text offset := by
  rw [← byteLength_toList] at hoffset
  have hcount := countP_lineEndsFrom 0 true hoffset
  rw [Nat.zero_add, ← bytes_eq] at hcount
  rw [lineAt, lineNumber, lineEnds, hcount, Nat.add_comm, feedsBefore]

/-- All places behind a text have one number. -/
theorem lineAt_behind {text : String} {offset : Nat} (hoffset : text.utf8ByteSize < offset) :
    lineAt text offset = maxLine text := by
  rw [lineAt, lineNumber, maxLine, List.countP_eq_length.mpr]
  intro place hmem
  have hbounds := bounds_of_mem_lineEndsFrom hmem
  rw [byteLength_toList] at hbounds
  simp only [decide_eq_true_eq]
  omega

theorem maxLine_eq (text : String) :
    maxLine text = 1 + (feedsBefore text text.utf8ByteSize +
      if text = "" ∨ text.back? ≠ some '\n' then 1 else 0) := by
  have hlength : (bytes text).length = text.utf8ByteSize := by
    rw [bytes_eq, length_flatMap_utf8EncodeChar, byteLength_toList]
  rw [maxLine, lineEnds, length_lineEndsFrom, ← bytes_eq, feedsBefore, ← hlength, List.take_length,
    Nat.add_comm]
  simp only [leavesOpen_toList]

/-- Consecutive ranges that end at some places, the first one from `start` on. -/
def rangesBetween (start : Nat) : List Nat → List (Nat × Nat)
  | [] => []
  | place :: rest => (start, place) :: rangesBetween place rest

theorem length_rangesBetween (start : Nat) (places : List Nat) :
    (rangesBetween start places).length = places.length := by
  induction places generalizing start with
  | nil => rfl
  | cons place rest ih => rw [rangesBetween, List.length_cons, List.length_cons, ih]

theorem bounds_of_mem_rangesBetween {start : Nat} {places : List Nat}
    (hplaces : (start :: places).Pairwise (· < ·)) {range : Nat × Nat}
    (hmem : range ∈ rangesBetween start places) : start ≤ range.1 ∧ range.1 < range.2 := by
  induction places generalizing start with
  | nil => cases hmem
  | cons place rest ih =>
      obtain ⟨hstart, hrest⟩ := List.pairwise_cons.mp hplaces
      have hlt := hstart place List.mem_cons_self
      rcases List.mem_cons.mp hmem with rfl | hmem
      · exact ⟨Nat.le_refl start, hlt⟩
      · have hbounds := ih hrest hmem
        exact ⟨Nat.le_trans (Nat.le_of_lt hlt) hbounds.1, hbounds.2⟩

/-- A range lies behind an offset, or ends before it, as its number compares with the number of
ranges that have ended. -/
theorem compare_rangesBetween {start offset : Nat} (hstart : start ≤ offset) {places : List Nat}
    (hplaces : (start :: places).Pairwise (· < ·)) {index : Nat} {range : Nat × Nat}
    (hrange : (rangesBetween start places)[index]? = some range) :
    (offset < range.1 ↔ places.countP (· ≤ offset) < index) ∧
      (range.2 ≤ offset ↔ index < places.countP (· ≤ offset)) := by
  induction places generalizing start index with
  | nil => cases hrange
  | cons place rest ih =>
      obtain ⟨-, hrest⟩ := List.pairwise_cons.mp hplaces
      by_cases hplace : place ≤ offset
      · rw [List.countP_cons_of_pos (by simpa using hplace)]
        cases index with
        | zero =>
            cases hrange
            dsimp only
            omega
        | succ index =>
            have hcompare := ih hplace hrest hrange
            omega
      · -- No later range has ended either.
        have hzero : rest.countP (· ≤ offset) = 0 := by
          rw [List.countP_eq_zero]
          intro later hmem
          have hlater := (List.pairwise_cons.mp hrest).1 later hmem
          simp only [decide_eq_true_eq]
          omega
        rw [List.countP_cons_of_neg (by simpa using hplace), hzero]
        cases index with
        | zero =>
            cases hrange
            dsimp only
            omega
        | succ index =>
            have hbounds := bounds_of_mem_rangesBetween hrest (List.mem_of_getElem? hrange)
            omega

end Text

/-! ## A table of ranges -/

/-- The byte ranges of the lines of a text, each up to the first byte of the next one. -/
structure LineTable where
  ranges : Array (Nat × Nat)

namespace LineTable

/-- The ranges that line feeds close, and where the bytes behind the last one start. The line at
hand starts at `start`, and the next byte stands at `offset`. -/
def closedFrom (start offset : Nat) : List UInt8 → List (Nat × Nat) × Nat
  | [] => ([], start)
  | byte :: rest =>
    if byte = Text.lineFeed then
      let (lines, last) := closedFrom (offset + 1) (offset + 1) rest
      ((start, offset + 1) :: lines, last)
    else closedFrom start (offset + 1) rest

/-- The table of a text. A line that no line feed closes takes in the place behind the text, and so
does the line of the empty text. -/
def ofText (text : String) : LineTable :=
  if text.isEmpty then ⟨#[(0, 1)]⟩
  else
    let (lines, last) := closedFrom 0 0 (Text.bytes text)
    if text.back? = some '\n' then ⟨lines.toArray⟩
    else ⟨lines.toArray.push (last, text.utf8ByteSize + 1)⟩

/-- The number of the range, from `low` on and before `high`, that holds an offset, found by
halving. -/
def search (table : LineTable) (offset low high : Nat) : Option Nat :=
  if low < high then
    let middle := (low + high) / 2
    match table.ranges[middle]? with
    | some (start, stop) =>
      if offset < start then table.search offset low middle
      else if stop ≤ offset then table.search offset (middle + 1) high
      else some middle
    | none => none
  else none
termination_by high - low

/-- The line number of every offset that no range holds. -/
def maxLine (table : LineTable) : UInt32 :=
  UInt32.ofNat (table.ranges.size + 1)

/-- The line number of an offset. -/
def line (table : LineTable) (offset : Nat) : UInt32 :=
  match table.search offset 0 table.ranges.size with
  | some place => UInt32.ofNat (place + 1)
  | none => table.maxLine

theorem closedFrom_append {bytes : List UInt8} (hbytes : Text.lineFeed ∉ bytes)
    (start offset : Nat) (rest : List UInt8) :
    closedFrom start offset (bytes ++ rest) = closedFrom start (offset + bytes.length) rest := by
  induction bytes generalizing offset with
  | nil => rfl
  | cons byte bytes ih =>
      rw [List.mem_cons, not_or] at hbytes
      rw [List.cons_append, closedFrom, if_neg (Ne.symm hbytes.1), ih hbytes.2, List.length_cons]
      congr 1
      omega

/-- The ranges of a table are those between the places at which lines end. -/
theorem closedFrom_eq (start offset : Nat) (begun : Bool) (chars : List Char) :
    let (lines, last) := closedFrom start offset (chars.flatMap String.utf8EncodeChar)
    Text.rangesBetween start (Text.lineEndsFrom offset begun chars) =
      lines ++ if Text.leavesOpen begun chars then
        [(last, offset + Text.byteLength chars + 1)] else [] := by
  induction chars generalizing start offset begun with
  | nil => cases begun <;> rfl
  | cons c rest ih =>
      rw [List.flatMap_cons, Text.leavesOpen_cons, Text.byteLength]
      by_cases hc : c = '\n'
      · subst hc
        have hrest := ih (offset + 1) (offset + 1) false
        have hsize : '\n'.utf8Size = 1 := rfl
        rw [Text.lineEndsFrom_cons_lineFeed, Text.utf8EncodeChar_lineFeed, List.singleton_append,
          closedFrom, if_pos rfl, Text.rangesBetween, hsize, ← Nat.add_assoc]
        simp only [bne_self_eq_false, List.cons_append]
        exact congrArg _ hrest
      · have hrest := ih start (offset + c.utf8Size) true
        rw [closedFrom_append (Text.lineFeed_notMem hc), String.length_utf8EncodeChar,
          Text.lineEndsFrom_cons_other offset begun hc, bne_iff_ne.mpr hc, ← Nat.add_assoc]
        exact hrest

theorem ranges_ofText (text : String) :
    (ofText text).ranges.toList = Text.rangesBetween 0 (Text.lineEnds text) := by
  have hclosed := closedFrom_eq 0 0 true text.toList
  rw [← Text.bytes_eq, Text.byteLength_toList, Nat.zero_add] at hclosed
  rw [Text.lineEnds, hclosed, ofText]
  split
  next hempty =>
    obtain rfl := String.isEmpty_iff.mp hempty
    rfl
  next hne =>
    generalize closedFrom 0 0 (Text.bytes text) = closed
    have hopen : Text.leavesOpen true text.toList = true ↔ text.back? ≠ some '\n' := by
      rw [Text.leavesOpen_toList, or_iff_right (mt String.isEmpty_iff.mpr hne)]
    dsimp only
    split
    next hback => rw [if_neg (by simp [hopen, hback]), List.append_nil]
    next hback => rw [if_pos (hopen.mpr hback), Array.toList_push]

/-- Halving finds the range with the number that all comparisons point to. -/
theorem search_eq {table : LineTable} {offset count : Nat}
    (hcompare : ∀ index range, table.ranges[index]? = some range →
      (offset < range.1 ↔ count < index) ∧ (range.2 ≤ offset ↔ index < count))
    {low high : Nat} (hhigh : high ≤ table.ranges.size) :
    table.search offset low high = if low ≤ count ∧ count < high then some count else none := by
  fun_induction search table offset low high with
  | case1 low high hlt middle start stop hrange hbehind ih =>
      have hcount := (hcompare middle _ hrange).1.mp hbehind
      rw [ih (by omega)]
      exact if_congr (by omega) rfl rfl
  | case2 low high hlt middle start stop hrange hbehind hended ih =>
      have hcount := (hcompare middle _ hrange).2.mp hended
      rw [ih hhigh]
      exact if_congr (by omega) rfl rfl
  | case3 low high hlt middle start stop hrange hbehind hended =>
      have hbefore := mt (hcompare middle _ hrange).1.mpr hbehind
      have hafter := mt (hcompare middle _ hrange).2.mpr hended
      obtain rfl : count = middle := by omega
      rw [if_pos (by omega)]
  | case4 low high hlt middle hnone =>
      rw [Array.getElem?_eq_none_iff] at hnone
      omega
  | case5 low high hlt => rw [if_neg (by omega)]

theorem maxLine_ofText (text : String) :
    (ofText text).maxLine = UInt32.ofNat (Text.maxLine text) := by
  rw [maxLine, ← Array.length_toList, ranges_ofText, Text.length_rangesBetween, Text.maxLine]

/-- Searching gives the number of lines that have ended, unless all of them have. -/
theorem search_ofText (text : String) (offset : Nat) :
    (ofText text).search offset 0 (ofText text).ranges.size =
      let count := (Text.lineEnds text).countP (· ≤ offset)
      if count < (ofText text).ranges.size then some count else none := by
  have hsearch := @search_eq (ofText text) offset ((Text.lineEnds text).countP (· ≤ offset))
  rw [hsearch _ (Nat.le_refl _)]
  · simp only [Nat.zero_le, true_and]
  · intro index range hrange
    rw [← Array.getElem?_toList, ranges_ofText] at hrange
    exact Text.compare_rangesBetween (Nat.zero_le offset)
      (Text.pairwise_lineEndsFrom 0 true text.toList) hrange

/-- The table gives the number of the line, in a word of 32 bits. -/
theorem line_ofText (text : String) (offset : Nat) :
    (ofText text).line offset = UInt32.ofNat (Text.lineAt text offset) := by
  have hsize : (ofText text).ranges.size = (Text.lineEnds text).length := by
    rw [← Array.length_toList, ranges_ofText, Text.length_rangesBetween]
  have hle : (Text.lineEnds text).countP (· ≤ offset) ≤ (Text.lineEnds text).length :=
    List.countP_le_length
  rw [line, search_ofText, Text.lineAt, Text.lineNumber]
  dsimp only
  by_cases hlt : (Text.lineEnds text).countP (· ≤ offset) < (ofText text).ranges.size
  · rw [if_pos hlt]
  · have hall : (Text.lineEnds text).countP (· ≤ offset) = (Text.lineEnds text).length := by omega
    rw [if_neg hlt, maxLine_ofText, Text.maxLine, hall]

end LineTable

/-! ## Small texts -/

namespace Text

theorem lineAt_le_maxLine (text : String) (offset : Nat) : lineAt text offset ≤ maxLine text := by
  rw [lineAt, lineNumber, maxLine]
  exact Nat.add_le_add_right List.countP_le_length 1

/-- There are at most as many line feeds as bytes. -/
theorem maxLine_le (text : String) : maxLine text ≤ text.utf8ByteSize + 2 := by
  have hcount : feedsBefore text text.utf8ByteSize ≤ text.utf8ByteSize :=
    Nat.le_trans List.count_le_length (List.length_take_le _ _)
  rw [maxLine_eq]
  split <;> omega

end Text

namespace LineTable

variable {text : String} (hsize : text.utf8ByteSize < UInt32.size - 2)

include hsize

theorem toNat_maxLine_ofText : (ofText text).maxLine.toNat = Text.maxLine text := by
  have hle := Text.maxLine_le text
  have hword : UInt32.size = 4294967296 := rfl
  rw [maxLine_ofText, UInt32.toNat_ofNat', Nat.mod_eq_of_lt (by omega)]

theorem toNat_line_ofText (offset : Nat) :
    ((ofText text).line offset).toNat = Text.lineAt text offset := by
  have hle := Nat.le_trans (Text.lineAt_le_maxLine text offset) (Text.maxLine_le text)
  have hword : UInt32.size = 4294967296 := rfl
  rw [line_ofText, UInt32.toNat_ofNat', Nat.mod_eq_of_lt (by omega)]

end LineTable

/-! ## Listings and summaries -/

theorem Token.exists_listing_eq (text : String) (token : Token) :
    ∃ rest, token.listing (Text.lineEnds text) =
      "[line " ++ toString (Text.lineAt text token.span.start) ++ "] " ++ rest := by
  obtain ⟨kind, spelling, span⟩ := token
  cases kind <;> exact ⟨_, by simp only [listing, String.append_assoc]; rfl⟩

theorem RunError.exists_summary_eq {error : RunError} {span : Span} {text : String}
    (hspan : error.span = some span) (htext : error.scripts.head? = some text) :
    ∃ rest, error.summary = "(" ++ toString (Text.lineAt text span.start) ++ ") [" ++ rest := by
  obtain ⟨others, hscripts⟩ := List.head?_eq_some_iff.mp htext
  exact ⟨_, by simp only [summary, hspan, hscripts, String.append_assoc]; rfl⟩

theorem Finding.exists_summary_eq {finding : Finding} {span : Span} {text : String}
    (hspan : finding.span = some span) (htext : finding.script = some text) :
    ∃ rest, finding.summary = "(" ++ toString (Text.lineAt text span.start) ++ ") " ++ rest := by
  exact ⟨_, by simp only [summary, hspan, htext, String.append_assoc]; rfl⟩

/-- In a text of less than 2³² - 2 bytes, the number of the line at a place is one more than the
number of line feeds before it. All places behind the text have the number after that of the last
line; there are as many lines as line feeds, and one more when the text is empty or does not end in
a line feed. Halving the table finds the numbers that `lineAt` gives, and the listing of a token,
the summary of a failure and that of a finding show them. -/
theorem lines_count_line_feeds (text : String) (hsize : text.utf8ByteSize < UInt32.size - 2) :
    let table := LineTable.ofText text
    (∀ offset ≤ text.utf8ByteSize,
      (table.line offset).toNat = 1 + Text.feedsBefore text offset) ∧
    (∀ offset, text.utf8ByteSize < offset → table.line offset = table.maxLine) ∧
    table.maxLine.toNat = 1 + (Text.feedsBefore text text.utf8ByteSize +
      if text = "" ∨ text.back? ≠ some '\n' then 1 else 0) ∧
    (∀ offset, Text.lineAt text offset = (table.line offset).toNat) ∧
    Text.maxLine text = table.maxLine.toNat ∧
    ∀ span : Span, span.start ≤ text.utf8ByteSize →
      let shown := toString (1 + Text.feedsBefore text span.start)
      (∀ token : Token, token.span = span →
        ∃ rest, token.listing (Text.lineEnds text) = "[line " ++ shown ++ "] " ++ rest) ∧
      (∀ error : RunError, error.span = some span → error.scripts.head? = some text →
        ∃ rest, error.summary = "(" ++ shown ++ ") [" ++ rest) ∧
      ∀ finding : Finding, finding.span = some span → finding.script = some text →
        ∃ rest, finding.summary = "(" ++ shown ++ ") " ++ rest := by
  intro table
  refine ⟨?_, ?_, ?_, ?_, ?_, ?_⟩
  · intro offset hoffset
    rw [LineTable.toNat_line_ofText hsize, Text.lineAt_eq hoffset]
  · intro offset hoffset
    rw [LineTable.line_ofText, LineTable.maxLine_ofText, Text.lineAt_behind hoffset]
  · rw [LineTable.toNat_maxLine_ofText hsize, Text.maxLine_eq]
  · intro offset
    rw [LineTable.toNat_line_ofText hsize]
  · rw [LineTable.toNat_maxLine_ofText hsize]
  · intro span hspan shown
    have hshown : shown = toString (Text.lineAt text span.start) := by
      rw [Text.lineAt_eq hspan]
    rw [hshown]
    refine ⟨?_, fun error => RunError.exists_summary_eq, fun finding => Finding.exists_summary_eq⟩
    rintro token rfl
    exact Token.exists_listing_eq text token

/-- A text that does not end in a line feed, with a character of two bytes: the place behind it is
still on its last line, and the next one is not. -/
theorem lines_of_two_line_text :
    let text := "é\n@x"
    let table := LineTable.ofText text
    text.utf8ByteSize < UInt32.size - 2 ∧ (table.line 2).toNat = 1 ∧ (table.line 3).toNat = 2 ∧
      (table.line 5).toNat = 2 ∧ table.line 6 = table.maxLine ∧ table.maxLine.toNat = 3 ∧
      ∃ rest, (RunError.mk .divisionByZero (some ⟨3, 2⟩) ["@script(m)", text]).summary =
        "(2) [" ++ rest := by
  intro text table
  have hsize : text.utf8ByteSize < UInt32.size - 2 := by decide +kernel
  obtain ⟨hinside, hbehind, hmax, -, -, hshown⟩ := lines_count_line_feeds text hsize
  have hplace : Span.start ⟨3, 2⟩ ≤ text.utf8ByteSize := by decide +kernel
  have htwo : 1 + Text.feedsBefore text 3 = 2 := by decide +kernel
  have hsummary := (hshown ⟨3, 2⟩ hplace).2.1
    (RunError.mk .divisionByZero (some ⟨3, 2⟩) ["@script(m)", text]) rfl rfl
  refine ⟨hsize, ?_, ?_, ?_, hbehind 6 (by decide +kernel), ?_, ?_⟩
  · rw [hinside 2 (by decide +kernel)]
    decide +kernel
  · rw [hinside 3 (by decide +kernel), htwo]
  · rw [hinside 5 (by decide +kernel)]
    decide +kernel
  · rw [hmax]
    decide +kernel
  · rw [htwo] at hsummary
    exact hsummary

end AtScript
