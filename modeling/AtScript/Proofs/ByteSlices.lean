import AtScript.Proofs.Partition

/-! # Reading with offsets that can fail

A scanner that works on a machine keeps offsets instead of characters, and cuts the text of a token
out of the script by its first and its last byte. Numbers have to fit their words, and a cut has to
be between two characters; where they do not, there is no result. Every script of less than 2³²
bytes is read to the end this way, with the tokens that `scan` gives.
-/

namespace AtScript

/-! ## Numbers of a machine -/

namespace Machine

/-- A number that fits an unsigned word of 64 bits. -/
def size? (number : Nat) : Option Nat :=
  if number < UInt64.size then some number else none

/-- A number that fits an unsigned word of 32 bits. -/
def half? (number : Nat) : Option Nat :=
  if number < UInt32.size then some number else none

/-- The number of values from zero on of a signed word of 64 bits. -/
def signedSize : Nat := UInt64.size / 2

/-- A number that fits a signed word of 64 bits. -/
def signed? (number : Int) : Option Int :=
  if Int64.minValue.toInt ≤ number ∧ number ≤ Int64.maxValue.toInt then some number else none

/-- The difference of two unsigned numbers. -/
def minus? (number other : Nat) : Option Nat :=
  if other ≤ number then some (number - other) else none

/-- The items from one place to another, the first included and the second not. -/
def slice? {α : Type} (items : List α) (start stop : Nat) : Option (List α) :=
  if start ≤ stop ∧ stop ≤ items.length then some ((items.drop start).take (stop - start)) else none

theorem size?_of_lt {number : Nat} (hfits : number < UInt64.size) : size? number = some number :=
  if_pos hfits

theorem half?_of_lt {number : Nat} (hfits : number < UInt32.size) : half? number = some number :=
  if_pos hfits

theorem signed?_of_natAbs_le {number : Int} {bound : Nat} (hbound : number.natAbs ≤ bound)
    (hfits : bound < signedSize) : signed? number = some number := by
  have hmin : Int64.minValue.toInt = -signedSize := rfl
  have hmax : Int64.maxValue.toInt = signedSize - 1 := rfl
  rw [signed?, if_pos]
  omega

theorem minus?_of_le {number other : Nat} (hle : other ≤ number) :
    minus? number other = some (number - other) :=
  if_pos hle

theorem minus?_add_left (number more : Nat) : minus? (number + more) number = some more := by
  rw [minus?_of_le (Nat.le_add_right number more), Nat.add_sub_cancel_left]

end Machine

/-! ## Cutting characters by their bytes -/

namespace Text

/-- The characters after the first `count` bytes. There are none when the bytes end inside a
character or behind the last one. -/
def dropBytes? : Nat → List Char → Option (List Char)
  | 0, chars => some chars
  | _ + 1, [] => none
  | count + 1, c :: rest =>
    if c.utf8Size ≤ count + 1 then dropBytes? (count + 1 - c.utf8Size) rest else none

/-- The characters of the first `count` bytes. -/
def takeBytes? : Nat → List Char → Option (List Char)
  | 0, _ => some []
  | _ + 1, [] => none
  | count + 1, c :: rest =>
    if c.utf8Size ≤ count + 1 then (takeBytes? (count + 1 - c.utf8Size) rest).map (c :: ·)
    else none

/-- The characters from one byte to another, the first included and the second not. -/
def cut? (chars : List Char) (start stop : Nat) : Option (List Char) :=
  if start ≤ stop then (dropBytes? start chars).bind (takeBytes? (stop - start)) else none

/-- The characters from a byte on. -/
def cutFrom? (chars : List Char) (start : Nat) : Option (List Char) :=
  cut? chars start (byteLength chars)

theorem dropBytes?_append (before after : List Char) :
    dropBytes? (byteLength before) (before ++ after) = some after := by
  induction before with
  | nil => simp only [byteLength, List.nil_append, dropBytes?]
  | cons c rest ih =>
      obtain ⟨count, hcount⟩ := Nat.exists_eq_succ_of_ne_zero (Nat.ne_of_gt (Char.utf8Size_pos c))
      have hsplit : byteLength (c :: rest) = count + byteLength rest + 1 := by
        rw [byteLength, hcount]
        omega
      rw [hsplit, List.cons_append, dropBytes?, if_pos (by omega), ← ih]
      congr 1
      omega

theorem takeBytes?_append (piece after : List Char) :
    takeBytes? (byteLength piece) (piece ++ after) = some piece := by
  induction piece with
  | nil => simp only [byteLength, takeBytes?]
  | cons c rest ih =>
      obtain ⟨count, hcount⟩ := Nat.exists_eq_succ_of_ne_zero (Nat.ne_of_gt (Char.utf8Size_pos c))
      have hsplit : byteLength (c :: rest) = count + byteLength rest + 1 := by
        rw [byteLength, hcount]
        omega
      have hleft : count + byteLength rest + 1 - c.utf8Size = byteLength rest := by omega
      rw [hsplit, List.cons_append, takeBytes?, if_pos (by omega), hleft, ih, Option.map_some]

/-- A piece that is cut where it starts and where it ends. -/
theorem cut?_append (before piece after : List Char) :
    cut? (before ++ piece ++ after) (byteLength before) (byteLength before + byteLength piece) =
      some piece := by
  rw [cut?, if_pos (Nat.le_add_right _ _), List.append_assoc, dropBytes?_append, Option.bind_some,
    Nat.add_sub_cancel_left, takeBytes?_append]

theorem cutFrom?_append (before after : List Char) :
    cutFrom? (before ++ after) (byteLength before) = some after := by
  have hcut := cut?_append before after []
  rwa [List.append_nil, ← byteLength_append] at hcut

end Text

/-! ## A scanner on offsets -/

namespace Span

/-- The place between two offsets, kept in words of 32 bits. -/
def between? (start stop : Nat) : Option Span :=
  (Machine.minus? stop start).map fun length => ⟨start % UInt32.size, length % UInt32.size⟩

/-- The text at a place of a script. -/
def textIn? (script : List Char) (span : Span) : Option String :=
  (Machine.half? (span.start + span.length)).bind fun stop =>
    (Text.cut? script span.start stop).map String.ofList

end Span

namespace Token

/-- The token of a word from its offsets. -/
def wordAt? (script : List Char) (command : Bool) (start stop : Nat) : Option Token := do
  let span ← Span.between? start stop
  let text ← span.textIn? script
  let kind := if command && text.back? == some '(' then .call else .word
  return ⟨kind, if command then Text.lower text else text, span⟩

/-- The token of a quoted literal from its offsets. -/
def quoteAt? (script : List Char) (start stop : Nat) : Option Token := do
  let span ← Span.between? start stop
  return ⟨.quoted, ← span.textIn? script, span⟩

/-- What is kept of a token whose end has not been met. -/
inductive Mode where
  | between
  | word (start : Nat) (command : Bool)
  | quote (start : Nat) (escaped : Bool)
deriving Repr, DecidableEq

/-- A script that has been read in part, by offsets. -/
structure Reader where
  /-- The byte offset of the next character. -/
  offset : Nat := 0
  mode : Mode := .between
  /-- The complete tokens, the last one first. -/
  done : List Token := []
deriving Repr, DecidableEq

namespace Reader

/-- Reads a character between two tokens. -/
def begin? (offset : Nat) (done : List Token) (c : Char) : Option Reader := do
  let next ← Machine.size? (offset + c.utf8Size)
  if c = ',' then
    return ⟨next, .between, ⟨.comma, ",", ← Span.between? offset next⟩ :: done⟩
  else if c = ')' then
    return ⟨next, .between, ⟨.close, ")", ← Span.between? offset next⟩ :: done⟩
  else if c = '"' then return ⟨next, .quote offset false, done⟩
  else if Text.isBlankChar c then return ⟨next, .between, done⟩
  else return ⟨next, .word offset (c == '@'), done⟩

def step? (script : List Char) (reader : Reader) (c : Char) : Option Reader := do
  let next ← Machine.size? (reader.offset + c.utf8Size)
  match reader.mode with
  | .between => begin? reader.offset reader.done c
  | .word start command =>
    if c = '(' then
      return ⟨next, .between, (← wordAt? script command start next) :: reader.done⟩
    else if c = ',' ∨ c = ')' ∨ c = '@' ∨ Text.isBlankChar c then
      begin? reader.offset ((← wordAt? script command start reader.offset) :: reader.done) c
    else
      return ⟨next, .word start command, reader.done⟩
  | .quote start true => return ⟨next, .quote start false, reader.done⟩
  | .quote start false =>
    if c = '"' then return ⟨next, .between, (← quoteAt? script start next) :: reader.done⟩
    else return ⟨next, .quote start (c = '\\'), reader.done⟩

/-- All tokens, when no further character follows. -/
def tokens? (script : List Char) (reader : Reader) : Option (List Token) :=
  match reader.mode with
  | .between => some reader.done.reverse
  | .word start command => do
    return ((← wordAt? script command start (Text.byteLength script)) :: reader.done).reverse
  | .quote start _ => do
    return ((← quoteAt? script start (Text.byteLength script)) :: reader.done).reverse

end Reader

/-- The tokens of a script, read by offsets. -/
def scan? (script : String) : Option (List Token) :=
  (script.toList.foldlM (Reader.step? script.toList) {}).bind (Reader.tokens? script.toList)

/-! ## Both scanners agree -/

/-- A part of a script that lies where its offsets say has those offsets as its place. -/
theorem between?_eq {script rest : List Char} {text part : String} {start : Nat}
    (hends : ∃ before : String, text = before ++ part ∧ before.utf8ByteSize = start)
    (hscript : script = text.toList ++ rest) (hsize : Text.byteLength script < UInt32.size) :
    Span.between? start text.utf8ByteSize = some ⟨start, part.utf8ByteSize⟩ ∧
      Span.textIn? script ⟨start, part.utf8ByteSize⟩ = some part := by
  obtain ⟨before, rfl, rfl⟩ := hends
  have htotal : before.utf8ByteSize + part.utf8ByteSize < UInt32.size := by
    rw [hscript, Text.byteLength_append, Text.byteLength_toList,
      String.utf8ByteSize_append] at hsize
    omega
  constructor
  · rw [String.utf8ByteSize_append, Span.between?, Machine.minus?_add_left, Option.map_some,
      Nat.mod_eq_of_lt (by omega), Nat.mod_eq_of_lt (by omega)]
  · have hcut := Text.cut?_append before.toList part.toList rest
    rw [← String.toList_append, ← hscript, Text.byteLength_toList, Text.byteLength_toList] at hcut
    rw [Span.textIn?, Machine.half?_of_lt htotal, Option.bind_some, hcut, Option.map_some,
      String.ofList_toList]

theorem wordAt?_eq {script rest : List Char} {text part : String} {start : Nat}
    (hends : ∃ before : String, text = before ++ part ∧ before.utf8ByteSize = start)
    (hscript : script = text.toList ++ rest) (hsize : Text.byteLength script < UInt32.size) :
    wordAt? script (part.front? == some '@') start text.utf8ByteSize =
      some (ofWord start part) := by
  obtain ⟨hspan, htext⟩ := between?_eq hends hscript hsize
  simp only [wordAt?, hspan, htext, Option.bind_eq_bind, Option.bind_some, ofWord]
  cases part.front? == some '@' <;> rfl

theorem quoteAt?_eq {script rest : List Char} {text part : String} {start : Nat}
    (hends : ∃ before : String, text = before ++ part ∧ before.utf8ByteSize = start)
    (hscript : script = text.toList ++ rest) (hsize : Text.byteLength script < UInt32.size) :
    quoteAt? script start text.utf8ByteSize = some (ofQuote start part) := by
  obtain ⟨hspan, htext⟩ := between?_eq hends hscript hsize
  simp only [quoteAt?, hspan, htext, Option.bind_eq_bind, Option.bind_some]
  rfl

/-- What a scanner on offsets keeps of a pending token. -/
def Pending.mode : Pending → Mode
  | .nothing => .between
  | .word start text => .word start (text.front? == some '@')
  | .quote start _ escaped => .quote start escaped

/-- A word that is being read has a first character. -/
def Pending.Begun : Pending → Prop
  | .word _ text => text ≠ ""
  | _ => True

/-- The reader that has come as far as a scanner. -/
def Scanner.reader (scanner : Scanner) : Reader :=
  ⟨scanner.offset, scanner.pending.mode, scanner.done⟩

theorem front?_push {text : String} (hne : text ≠ "") (c : Char) :
    (text.push c).front? = text.front? := by
  rw [String.front?_eq, String.front?_eq, String.toList_push]
  cases hchars : text.toList with
  | nil => exact absurd (String.toList_eq_nil_iff.mp hchars) hne
  | cons first rest => rfl

namespace Reader

variable {script rest : List Char} {text : String} {c : Char}

theorem begin?_eq (hscript : script = text.toList ++ c :: rest)
    (hsize : Text.byteLength script < UInt32.size) (done : List Token) :
    begin? text.utf8ByteSize done c = some (Scanner.begin text.utf8ByteSize done c).reader ∧
      (Scanner.begin text.utf8ByteSize done c).pending.Begun := by
  have hnext : text.utf8ByteSize + c.utf8Size < UInt32.size := by
    rw [hscript, Text.byteLength_append, Text.byteLength_toList, Text.byteLength] at hsize
    omega
  have hword : text.utf8ByteSize + c.utf8Size < UInt64.size :=
    Nat.lt_trans hnext (by decide)
  have hmark (hone : c.utf8Size = 1) :
      Span.between? text.utf8ByteSize (text.utf8ByteSize + c.utf8Size) =
        some ⟨text.utf8ByteSize, 1⟩ := by
    rw [Span.between?, Machine.minus?_add_left, Option.map_some, hone,
      Nat.mod_eq_of_lt (by omega), Nat.mod_eq_of_lt (by decide)]
  simp only [begin?, Machine.size?_of_lt hword, Option.bind_eq_bind, Option.bind_some,
    Scanner.begin]
  split
  next hcomma =>
    subst hcomma
    rw [hmark rfl]
    exact ⟨rfl, trivial⟩
  next =>
    split
    next hclose =>
      subst hclose
      rw [hmark rfl]
      exact ⟨rfl, trivial⟩
    next =>
      split
      · exact ⟨rfl, trivial⟩
      · split
        · exact ⟨rfl, trivial⟩
        · have hfront : c.toString.front? = some c := by
            rw [String.front?_eq, Char.toString, String.toList_singleton, List.head?_cons]
          refine ⟨?_, fun hempty => ?_⟩
          · rw [Scanner.reader, Pending.mode, hfront]
            rfl
          · rw [hempty] at hfront
            cases hfront

/-- One more character. -/
theorem step?_eq {scanner : Scanner} (hread : scanner.HasRead text)
    (hbegun : scanner.pending.Begun) (hscript : script = text.toList ++ c :: rest)
    (hsize : Text.byteLength script < UInt32.size) :
    step? script scanner.reader c = some (scanner.step c).reader ∧
      (scanner.step c).pending.Begun := by
  obtain ⟨offset, pending, done⟩ := scanner
  obtain ⟨rfl, hends, -⟩ := id hread
  dsimp only at hends hbegun
  have hpushed : script = (text.push c).toList ++ rest := by
    rw [hscript, String.toList_push, List.append_assoc, List.singleton_append]
  have hoffset : text.utf8ByteSize + c.utf8Size = (text.push c).utf8ByteSize :=
    String.utf8ByteSize_push.symm
  have hword : text.utf8ByteSize + c.utf8Size < UInt64.size := by
    refine Nat.lt_trans (Nat.lt_of_le_of_lt ?_ hsize) (by decide)
    rw [hpushed, Text.byteLength_append, Text.byteLength_toList, ← hoffset]
    exact Nat.le_add_right _ _
  cases pending with
  | nothing =>
      simp only [step?, Scanner.reader, Pending.mode, Machine.size?_of_lt hword,
        Option.bind_eq_bind, Option.bind_some, Scanner.step]
      exact begin?_eq hscript hsize done
  | word start part =>
      simp only [step?, Scanner.reader, Pending.mode, Machine.size?_of_lt hword,
        Option.bind_eq_bind, Option.bind_some, Scanner.step]
      split
      next =>
        rw [hoffset, ← front?_push hbegun c, wordAt?_eq (Scanner.ends_push hends c) hpushed hsize]
        exact ⟨rfl, trivial⟩
      next =>
        split
        next =>
          rw [wordAt?_eq hends hscript hsize]
          exact begin?_eq hscript hsize _
        next =>
          refine ⟨?_, fun hempty => ?_⟩
          · rw [← front?_push hbegun c]
            rfl
          · exact absurd (congrArg String.toList hempty) (by simp)
  | quote start part escaped =>
      cases escaped with
      | true =>
          simp only [step?, Scanner.reader, Pending.mode, Machine.size?_of_lt hword,
            Option.bind_eq_bind, Option.bind_some, Scanner.step]
          exact ⟨rfl, trivial⟩
      | false =>
          simp only [step?, Scanner.reader, Pending.mode, Machine.size?_of_lt hword,
            Option.bind_eq_bind, Option.bind_some, Scanner.step]
          split
          next =>
            rw [hoffset, quoteAt?_eq (Scanner.ends_push hends c) hpushed hsize]
            exact ⟨rfl, trivial⟩
          next => exact ⟨rfl, trivial⟩

/-- All characters up to the end. -/
theorem foldlM_step?_eq {scanner : Scanner} {chars : List Char} (hread : scanner.HasRead text)
    (hbegun : scanner.pending.Begun) (hscript : script = text.toList ++ chars)
    (hsize : Text.byteLength script < UInt32.size) :
    chars.foldlM (step? script) scanner.reader = some (scanner.read chars).reader := by
  induction chars generalizing scanner text with
  | nil => rfl
  | cons c rest ih =>
      obtain ⟨hstep, hnext⟩ := step?_eq hread hbegun hscript hsize
      rw [List.foldlM_cons, hstep, Scanner.read_cons]
      apply ih (hread.step c) hnext
      rw [hscript, String.toList_push, List.append_assoc, List.singleton_append]

theorem tokens?_eq {scanner : Scanner} (hread : scanner.HasRead text)
    (hsize : text.utf8ByteSize < UInt32.size) :
    tokens? text.toList scanner.reader = some scanner.tokens := by
  obtain ⟨offset, pending, done⟩ := scanner
  have hscript : text.toList = text.toList ++ [] := (List.append_nil _).symm
  have hbytes := Text.byteLength_toList text
  rw [← hbytes] at hsize
  cases pending with
  | nothing => rfl
  | word start part =>
      simp only [tokens?, Scanner.reader, Pending.mode]
      rw [hbytes, wordAt?_eq hread.pending hscript hsize]
      rfl
  | quote start part escaped =>
      simp only [tokens?, Scanner.reader, Pending.mode]
      rw [hbytes, quoteAt?_eq hread.pending hscript hsize]
      rfl

end Reader

/-- Every script of less than 2³² bytes can be read by offsets. -/
theorem scan?_eq {script : String} (hsize : script.utf8ByteSize < UInt32.size) :
    scan? script = some (scan script) := by
  have hstart : Scanner.HasRead {} "" := ⟨rfl, trivial, nofun⟩
  have hread := hstart.read script.toList
  rw [String.ofList_toList, String.empty_append] at hread
  have hchars := Reader.foldlM_step?_eq hstart trivial (List.nil_append script.toList).symm
    (Text.byteLength_toList script ▸ hsize)
  rw [scan?]
  exact (congrArg (Option.bind · _) hchars).trans (Reader.tokens?_eq hread hsize)

theorem Pieces.length_le {offset : Nat} {chars : List Char} {tokens : List Token}
    (hpieces : Pieces offset chars tokens) : tokens.length ≤ chars.length := by
  induction hpieces with
  | nil => exact Nat.le_refl 0
  | blank hblank hrest ih => exact Nat.le_succ_of_le ih
  | lexeme hlexeme hrest ih =>
      have hpos := List.length_pos_iff.mpr hlexeme.isSlice.nonempty
      rw [List.length_cons, List.length_append]
      omega
  | unclosed hstate => exact Nat.succ_le_succ (Nat.zero_le _)

/-- A script has no more tokens than bytes. -/
theorem length_scan_le (script : String) : (scan script).length ≤ script.utf8ByteSize :=
  calc (scan script).length
    _ ≤ script.toList.length := (Scanner.scan_pieces script).length_le
    _ ≤ Text.byteLength script.toList := Text.length_le_byteLength _
    _ = script.utf8ByteSize := Text.byteLength_toList script

end Token

end AtScript
