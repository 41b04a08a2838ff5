import SubqlCosmos.Js.Json
import SubqlCosmos.Js.Record
import SubqlCosmos.Js.Url

/-!
# JSON texts

`JSON.stringify` and `JSON.parse`: the text a value is written as, and the value a text is read as.
What is written is read back.
-/

namespace Js

/-- How the language writes the numbers that are not safe integers, and what it reads other numerals
as. -/
structure NumberFormat where
  write : ℚ → List Char
  read : List Char → Value

/-- Numbers other than safe integers are neither written nor read. -/
def NumberFormat.integersOnly : NumberFormat where
  write := fun _ => []
  read := fun _ => .undefined

namespace Json

variable (numbers : NumberFormat)

/-! ## Writing -/

/-- The characters with an escape of one letter. -/
def escapes : List (Char × Char) :=
  [('"', '"'), ('\\', '\\'), ('\x08', 'b'), ('\x0c', 'f'), ('\n', 'n'), ('\r', 'r'), ('\t', 't')]

/-- A hexadecimal digit. -/
def hexChar (digit : Nat) : Char :=
  if digit < 10 then Char.ofNat (48 + digit) else Char.ofNat (87 + digit)

/-- A character of a string literal. -/
def writeChar (c : Char) : List Char :=
  match escapes.lookup c with
  | some letter => ['\\', letter]
  | none =>
      if c.toNat < 0x20 then ['\\', 'u', '0', '0', hexChar (c.toNat / 16), hexChar (c.toNat % 16)]
      else [c]

/-- A string literal. -/
def writeString (text : String) : List Char :=
  '"' :: text.toList.flatMap writeChar ++ ['"']

/-- The integer a number is, where it is a safe one. -/
def safeInteger? (number : ℚ) : Option Int :=
  if number.den = 1 ∧ number.num.natAbs < 2 ^ 53 then some number.num else none

/-- A numeral. -/
def writeNumber (number : ℚ) : List Char :=
  match safeInteger? number with
  | some integer => if integer < 0 then '-' :: decimal integer.natAbs else decimal integer.natAbs
  | none => numbers.write number

/-- A primitive value. -/
def writeScalar : Scalar → List Char
  | .null => "null".toList
  | .bool value => (if value then "true" else "false").toList
  | .num value => writeNumber numbers value
  | .str text => writeString text

/-- Texts with commas between them. -/
def separated (pieces : List (List Char)) : List Char := [','].intercalate pieces

/-- A property with its value as text. -/
def writeField (key : String) (value : List Char) : List Char := writeString key ++ ':' :: value

mutual

/-- A serialised value. -/
def write : Value → List Char
  | .scalar primitive => writeScalar numbers primitive
  | .arr items => '[' :: separated (writeItems items) ++ [']']
  | .obj fields => '\x7b' :: separated (writeFields fields) ++ ['\x7d']
  | _ => []

/-- The items of an array. -/
def writeItems : List Value → List (List Char)
  | [] => []
  | item :: items => write item :: writeItems items

/-- The properties of an object. -/
def writeFields : List (String × Value) → List (List Char)
  | [] => []
  | (key, value) :: fields => writeField key (write value) :: writeFields fields

end

/-- `JSON.stringify`; nothing is written for `undefined`. -/
def stringify (value : Value) : Option (List Char) :=
  if value.Unserialisable then none else some (write numbers value.toJson)

/-! ## Reading -/

/-- Blanks between tokens. -/
def isBlank (c : Char) : Bool :=
  c = ' ' || c = '\n' || c = '\r' || c = '\t'

/-- The text after its leading blanks. -/
def skipBlank (text : List Char) : List Char := text.dropWhile isBlank

/-- The characters of a sequence of UTF-16 code units after a leading surrogate or after none. A
surrogate without its other half is no character. -/
def ofCodeUnits : Option Nat → List Nat → Option (List Char)
  | none, [] => some []
  | some _, [] => none
  | none, unit :: units =>
      if 0xD800 ≤ unit ∧ unit < 0xDC00 then ofCodeUnits (some unit) units
      else if 0xDC00 ≤ unit ∧ unit < 0xE000 then none
      else (ofCodeUnits none units).map (Char.ofNat unit :: ·)
  | some high, low :: units =>
      if 0xDC00 ≤ low ∧ low < 0xE000 then
        (ofCodeUnits none units).map
          (Char.ofNat (0x10000 + (high - 0xD800) * 0x400 + (low - 0xDC00)) :: ·)
      else none

/-- The code unit of four hexadecimal digits. -/
def hexUnit? : List Char → Option Nat
  | [a, b, c, d] => do
      let a ← hexDigit? a
      let b ← hexDigit? b
      let c ← hexDigit? c
      let d ← hexDigit? d
      return ((a * 16 + b) * 16 + c) * 16 + d
  | _ => none

/-- The character an escape of one letter stands for. -/
def unescape? (letter : Char) : Option Char :=
  if letter = '/' then some '/'
  else (escapes.find? fun escape => escape.2 = letter).map Prod.fst

/-- The code unit of an escape after its backslash, and the rest of the text. -/
def readEscape : List Char → Option (Nat × List Char)
  | [] => none
  | letter :: rest =>
      if letter = 'u' then (hexUnit? (rest.take 4)).map fun unit => (unit, rest.drop 4)
      else (unescape? letter).map fun c => (c.toNat, rest)

/-- The code units of a string literal after its opening quote, and the rest of the text. The fuel
bounds the number of characters and escapes. -/
def readUnits : Nat → List Char → Option (List Nat × List Char)
  | 0, _ => none
  | _ + 1, [] => none
  | fuel + 1, first :: rest =>
      if first = '"' then some ([], rest)
      else if first = '\\' then do
        let (unit, rest) ← readEscape rest
        let (units, rest) ← readUnits fuel rest
        return (unit :: units, rest)
      else if first.toNat < 0x20 then none
      else do
        let (units, rest) ← readUnits fuel rest
        return (codeUnits (String.singleton first) ++ units, rest)

/-- A string literal after its opening quote. -/
def readString (text : List Char) : Option (String × List Char) := do
  let (units, rest) ← readUnits (text.length + 1) text
  let chars ← ofCodeUnits none units
  return (String.ofList chars, rest)

/-- The digits a text starts with, which must be some. -/
def readDigits (text : List Char) : Option (List Char × List Char) :=
  if text.takeWhile Char.isDigit = [] then none
  else some (text.takeWhile Char.isDigit, text.dropWhile Char.isDigit)

/-- The fraction of a numeral. -/
def readFraction : List Char → Option (List Char × List Char)
  | '.' :: rest => (readDigits rest).map fun (digits, rest) => ('.' :: digits, rest)
  | text => some ([], text)

/-- The exponent of a numeral. -/
def readExponent : List Char → Option (List Char × List Char)
  | [] => some ([], [])
  | first :: rest =>
      if first = 'e' ∨ first = 'E' then
        let sign := rest.take 1
        if sign = ['+'] ∨ sign = ['-'] then
          (readDigits (rest.drop 1)).map fun (digits, rest) => (first :: sign ++ digits, rest)
        else (readDigits rest).map fun (digits, rest) => (first :: digits, rest)
      else some ([], first :: rest)

/-- The number of a row of digits. -/
def digitsValue (digits : List Char) : Nat :=
  digits.foldl (fun number digit => 10 * number + (digit.toNat - 48)) 0

/-- A numeral without its sign. -/
def readMagnitude (negative : Bool) (text : List Char) : Option (Value × List Char) := do
  let (digits, rest) ← readDigits text
  if digits.head? = some '0' ∧ digits ≠ ['0'] then none
  else
    let (fraction, rest) ← readFraction rest
    let (exponent, rest) ← readExponent rest
    if fraction = [] ∧ exponent = [] ∧ digitsValue digits < 2 ^ 53 then
      return (.num (if negative then -(digitsValue digits : ℤ) else (digitsValue digits : ℤ) : ℤ), rest)
    else
      let sign := if negative then ['-'] else []
      return (numbers.read (sign ++ digits ++ fraction ++ exponent), rest)

/-- A numeral. -/
def readNumber : List Char → Option (Value × List Char)
  | '-' :: rest => readMagnitude numbers true rest
  | text => readMagnitude numbers false text

/-- One of the three words. -/
def readWord (text : List Char) : Option (Value × List Char) :=
  if "null".toList <+: text then some (.null, text.drop 4)
  else if "true".toList <+: text then some (.scalar (.bool true), text.drop 4)
  else if "false".toList <+: text then some (.scalar (.bool false), text.drop 5)
  else none

/-- The object of a list of properties: of several of one name the last stays. -/
def objectOf (fields : List (String × Value)) : Value :=
  .obj (fields.foldl (fun entries field => Record.putEntry field.1 field.2 entries) [])

/-- One or more elements with commas between them up to the closing character, and the rest of the
text. The fuel bounds their number. -/
def readSeparated {α : Type} (read : List Char → Option (α × List Char)) (close : Char) :
    Nat → List Char → Option (List α × List Char)
  | 0, _ => none
  | fuel + 1, text => do
      let (element, rest) ← read text
      match skipBlank rest with
      | [] => none
      | first :: rest =>
          if first = ',' then do
            let (elements, rest) ← readSeparated read close fuel rest
            return (element :: elements, rest)
          else if first = close then some ([element], rest)
          else none

/-- A property with its value. -/
def readField (read : List Char → Option (Value × List Char)) (text : List Char) :
    Option ((String × Value) × List Char) :=
  match skipBlank text with
  | [] => none
  | first :: rest =>
      if first = '"' then do
        let (key, rest) ← readString rest
        match skipBlank rest with
        | [] => none
        | second :: rest =>
            if second = ':' then (read rest).map fun (value, rest) => ((key, value), rest)
            else none
      else none

/-- The elements up to the closing character, if any. -/
def readElements {α : Type} (read : List Char → Option (α × List Char)) (close : Char)
    (text : List Char) : Option (List α × List Char) :=
  if (skipBlank text).head? = some close then some ([], (skipBlank text).tail)
  else readSeparated read close text.length text

/-- A value at the start of a text, and the rest of the text. The fuel bounds the nesting. -/
def readValue : Nat → List Char → Option (Value × List Char)
  | 0, _ => none
  | fuel + 1, text =>
      match skipBlank text with
      | [] => none
      | first :: rest =>
          if first = '"' then (readString rest).map fun (text, rest) => (.str text, rest)
          else if first = '[' then
            (readElements (readValue fuel) ']' rest).map fun (items, rest) => (.arr items, rest)
          else if first = '\x7b' then
            (readElements (readField (readValue fuel)) '\x7d' rest).map fun (fields, rest) =>
              (objectOf fields, rest)
          else if first = '-' ∨ first.isDigit then readNumber numbers (first :: rest)
          else readWord (first :: rest)

/-- `JSON.parse`, where `none` stands for the syntax error it throws. -/
def parse (text : List Char) : Option Value :=
  match readValue numbers (text.length + 1) text with
  | some (value, rest) => if skipBlank rest = [] then some value else none
  | none => none

/-! ## String literals -/

theorem codeUnits_singleton (c : Char) :
    codeUnits (String.singleton c) =
      if c.toNat < 0x10000 then [c.toNat]
      else [0xD800 + (c.toNat - 0x10000) / 0x400, 0xDC00 + (c.toNat - 0x10000) % 0x400] := by
  simp [codeUnits, String.toList_singleton]

theorem ofCodeUnits_char (c : Char) (units : List Nat) :
    ofCodeUnits none (codeUnits (String.singleton c) ++ units) =
      (ofCodeUnits none units).map (c :: ·) := by
  have valid : c.toNat < 0xD800 ∨ 0xDFFF < c.toNat ∧ c.toNat < 0x110000 := c.valid
  rw [codeUnits_singleton]
  split
  · rw [List.cons_append, List.nil_append, ofCodeUnits, if_neg (by omega), if_neg (by omega),
      Char.ofNat_toNat]
  · have code : 0x10000 + (0xD800 + (c.toNat - 0x10000) / 0x400 - 0xD800) * 0x400 +
        (0xDC00 + (c.toNat - 0x10000) % 0x400 - 0xDC00) = c.toNat := by omega
    rw [List.cons_append, List.cons_append, List.nil_append, ofCodeUnits, if_pos (by omega),
      ofCodeUnits, if_pos (by omega), code, Char.ofNat_toNat]

theorem hexDigit?_hexChar {digit : Nat} (small : digit < 16) :
    hexDigit? (hexChar digit) = some digit := by
  have all : ∀ digit : Fin 16, hexDigit? (hexChar digit) = some digit.val := by decide
  exact all ⟨digit, small⟩

theorem readEscape_letter {c letter : Char} (found : escapes.lookup c = some letter)
    (rest : List Char) :
    readEscape (letter :: rest) = some (c.toNat, rest) ∧ c.toNat < 0x80 := by
  have each : ∀ escape ∈ escapes,
      escape.2 ≠ 'u' ∧ unescape? escape.2 = some escape.1 ∧ escape.1.toNat < 0x80 := by decide
  obtain ⟨front, back, split, -⟩ := List.lookup_eq_some_iff.mp found
  have listed : (c, letter) ∈ escapes := by rw [split]; simp
  obtain ⟨unnumbered, unescaped, small⟩ := each _ listed
  refine ⟨?_, small⟩
  rw [readEscape, if_neg unnumbered, unescaped, Option.map_some]

theorem readEscape_control {c : Char} (control : c.toNat < 0x20) (rest : List Char) :
    readEscape ('u' :: '0' :: '0' :: hexChar (c.toNat / 16) :: hexChar (c.toNat % 16) :: rest) =
      some (c.toNat, rest) := by
  have high := hexDigit?_hexChar (show c.toNat / 16 < 16 by omega)
  have low := hexDigit?_hexChar (show c.toNat % 16 < 16 by omega)
  have zero : hexDigit? '0' = some 0 := by decide
  have unit : hexUnit? ['0', '0', hexChar (c.toNat / 16), hexChar (c.toNat % 16)] =
      some c.toNat := by
    simp only [hexUnit?, zero, high, low, Option.bind_eq_bind, Option.bind_some, Option.pure_def,
      Option.some.injEq]
    omega
  rw [readEscape, if_pos rfl]
  simp only [List.take_succ_cons, List.take_zero, List.drop_succ_cons, List.drop_zero, unit,
    Option.map_some]

/-- A character is read back as its code units. -/
theorem readUnits_writeChar (fuel : Nat) (c : Char) (rest : List Char) :
    readUnits (fuel + 1) (writeChar c ++ rest) =
      (readUnits fuel rest).map fun (units, rest) =>
        (codeUnits (String.singleton c) ++ units, rest) := by
  unfold writeChar
  split
  · rename_i letter found
    obtain ⟨escaped, small⟩ := readEscape_letter found rest
    rw [codeUnits_singleton, if_pos (by omega), List.cons_append, List.cons_append,
      List.nil_append, readUnits, if_neg (by decide), if_pos rfl, escaped]
    simp only [Option.bind_eq_bind, Option.bind_some]
    cases readUnits fuel rest <;> rfl
  · rename_i plain
    split
    · rename_i control
      rw [codeUnits_singleton, if_pos (by omega)]
      simp only [List.cons_append, List.nil_append]
      rw [readUnits, if_neg (by decide), if_pos rfl, readEscape_control control]
      simp only [Option.bind_eq_bind, Option.bind_some]
      cases readUnits fuel rest <;> rfl
    · rename_i printable
      have noQuote : c ≠ '"' := by
        rintro rfl
        cases plain
      have noBackslash : c ≠ '\\' := by
        rintro rfl
        cases plain
      rw [List.cons_append, List.nil_append, readUnits, if_neg noQuote, if_neg noBackslash,
        if_neg printable]
      cases readUnits fuel rest <;> rfl

theorem readUnits_text (chars rest : List Char) {fuel : Nat} (enough : chars.length < fuel) :
    readUnits fuel (chars.flatMap writeChar ++ '"' :: rest) =
      some (codeUnits (String.ofList chars), rest) := by
  induction chars generalizing fuel with
  | nil =>
      cases fuel with
      | zero => cases enough
      | succ fuel => simp [readUnits, codeUnits]
  | cons c chars ih =>
      cases fuel with
      | zero => cases enough
      | succ fuel =>
          have rest_eq := @ih fuel (by simpa using enough)
          rw [List.flatMap_cons, List.append_assoc, readUnits_writeChar, rest_eq]
          simp [codeUnits]

theorem ofCodeUnits_codeUnits (text : String) :
    ofCodeUnits none (codeUnits text) = some text.toList := by
  suffices all : ∀ chars : List Char,
      ofCodeUnits none (codeUnits (String.ofList chars)) = some chars by
    simpa using all text.toList
  intro chars
  induction chars with
  | nil => rfl
  | cons c chars ih =>
      have split : codeUnits (String.ofList (c :: chars)) =
          codeUnits (String.singleton c) ++ codeUnits (String.ofList chars) := by
        simp [codeUnits]
      rw [split, ofCodeUnits_char, ih, Option.map_some]

theorem length_le_flatMap_writeChar (chars : List Char) :
    chars.length ≤ (chars.flatMap writeChar).length := by
  induction chars with
  | nil => rfl
  | cons c chars ih =>
      have some : 1 ≤ (writeChar c).length := by
        unfold writeChar
        split
        · simp
        · split <;> simp
      rw [List.flatMap_cons, List.length_append, List.length_cons]
      omega

theorem readString_text (text : String) (rest : List Char) :
    readString (text.toList.flatMap writeChar ++ '"' :: rest) = some (text, rest) := by
  have length := length_le_flatMap_writeChar text.toList
  have enough : text.toList.length < (text.toList.flatMap writeChar ++ '"' :: rest).length + 1 := by
    rw [List.length_append]
    omega
  rw [readString, readUnits_text text.toList rest enough]
  simp [ofCodeUnits_codeUnits]

/-! ## Numerals -/

/-- The text does not go on with a numeral. -/
def Stops (text : List Char) : Prop :=
  ∀ first ∈ text.head?, first.isDigit = false ∧ first ≠ '.' ∧ first ≠ 'e' ∧ first ≠ 'E'

theorem takeWhile_digits {digits rest : List Char} (each : ∀ digit ∈ digits, digit.isDigit = true)
    (stops : Stops rest) :
    (digits ++ rest).takeWhile Char.isDigit = digits ∧
      (digits ++ rest).dropWhile Char.isDigit = rest := by
  have next : rest.takeWhile Char.isDigit = [] ∧ rest.dropWhile Char.isDigit = rest := by
    cases rest with
    | nil => exact ⟨rfl, rfl⟩
    | cons first rest =>
        have noDigit := (stops first rfl).1
        simp [noDigit]
  rw [List.takeWhile_append_of_pos each, List.dropWhile_append_of_pos each, next.1, next.2,
    List.append_nil]
  exact ⟨rfl, rfl⟩

theorem decimal_eq {number : Nat} (positive : number ≠ 0) :
    decimal number = ((Nat.digits 10 number).map fun digit => Char.ofNat (digit + 48)).reverse := by
  rw [decimal, if_neg positive]

theorem digit_ofNat {digit : Nat} (small : digit < 10) :
    (Char.ofNat (digit + 48)).isDigit = true ∧ (Char.ofNat (digit + 48)).toNat - 48 = digit ∧
      (Char.ofNat (digit + 48) = '0' → digit = 0) := by
  have all : ∀ digit : Fin 10, (Char.ofNat (digit.val + 48)).isDigit = true ∧
      (Char.ofNat (digit.val + 48)).toNat - 48 = digit.val ∧
        (Char.ofNat (digit.val + 48) = '0' → digit.val = 0) := by decide
  exact all ⟨digit, small⟩

theorem isDigit_decimal (number : Nat) : ∀ digit ∈ decimal number, digit.isDigit = true := by
  by_cases zero : number = 0
  · intro digit member
    rw [zero, decimal, if_pos rfl, List.mem_singleton] at member
    rw [member]
    rfl
  · intro digit member
    rw [decimal_eq zero, List.mem_reverse, List.mem_map] at member
    obtain ⟨unit, listed, rfl⟩ := member
    exact (digit_ofNat (Nat.digits_lt_base (by decide) listed)).1

theorem digitsValue_decimal (number : Nat) : digitsValue (decimal number) = number := by
  by_cases zero : number = 0
  · rw [zero, decimal, if_pos rfl]
    rfl
  · have back : (Nat.digits 10 number).map (fun digit => (Char.ofNat (digit + 48)).toNat - 48) =
        Nat.digits 10 number := by
      refine (List.map_congr_left fun digit listed => ?_).trans (List.map_id _)
      exact (digit_ofNat (Nat.digits_lt_base (by decide) listed)).2.1
    rw [digitsValue, foldl_digits, decimal_eq zero, List.map_reverse, List.reverse_reverse,
      List.map_map]
    exact (congrArg (Nat.ofDigits 10) back).trans (Nat.ofDigits_digits 10 number)

theorem head_decimal {number : Nat} (zero : (decimal number).head? = some '0') :
    decimal number = ['0'] := by
  by_cases none : number = 0
  · rw [none]
    rfl
  · exfalso
    have filled : Nat.digits 10 number ≠ [] := Nat.digits_ne_nil_iff_ne_zero.mpr none
    rw [decimal_eq none, List.head?_reverse, List.getLast?_map,
      List.getLast?_eq_some_getLast filled, Option.map_some, Option.some.injEq] at zero
    have last := List.getLast_mem filled
    have digit := (digit_ofNat (Nat.digits_lt_base (by decide) last)).2.2 zero
    exact Nat.getLast_digit_ne_zero 10 none digit

theorem decimal_ne_nil (number : Nat) : decimal number ≠ [] := by
  by_cases zero : number = 0
  · rw [zero, decimal, if_pos rfl]
    simp
  · have filled : Nat.digits 10 number ≠ [] := Nat.digits_ne_nil_iff_ne_zero.mpr zero
    simpa [decimal_eq zero] using filled

theorem readMagnitude_decimal (numbers : NumberFormat) (negative : Bool) {number : Nat}
    (safe : number < 2 ^ 53) {rest : List Char} (stops : Stops rest) :
    readMagnitude numbers negative (decimal number ++ rest) =
      some (.num (if negative then -(number : ℤ) else (number : ℤ) : ℤ), rest) := by
  obtain ⟨taken, left⟩ := takeWhile_digits (isDigit_decimal number) stops
  have fraction : readFraction rest = some ([], rest) := by
    cases rest with
    | nil => rfl
    | cons first rest =>
        have noPoint := (stops first rfl).2.1
        rw [readFraction]
        simpa using noPoint
  have exponent : readExponent rest = some ([], rest) := by
    cases rest with
    | nil => rfl
    | cons first rest =>
        obtain ⟨-, -, small, large⟩ := stops first rfl
        rw [readExponent, if_neg (by simp [small, large])]
  have canonical : ¬((decimal number).head? = some '0' ∧ decimal number ≠ ['0']) :=
    fun ⟨zero, more⟩ => more (head_decimal zero)
  rw [readMagnitude, readDigits, taken, left, if_neg (decimal_ne_nil number)]
  simp only [Option.bind_eq_bind, Option.bind_some, if_neg canonical, fraction, exponent,
    digitsValue_decimal, safe, and_self, if_true, Option.pure_def]

theorem safeInteger?_intCast {number : ℤ} (safe : number.natAbs < 2 ^ 53) :
    safeInteger? (number : ℚ) = some number := by
  rw [safeInteger?, if_pos ⟨Rat.den_intCast number, by simpa using safe⟩, Rat.num_intCast]

/-- A safe integer is read back. -/
theorem readNumber_writeNumber (numbers : NumberFormat) {number : ℤ}
    (safe : number.natAbs < 2 ^ 53) {rest : List Char} (stops : Stops rest) :
    readNumber numbers (writeNumber numbers number ++ rest) = some (.num number, rest) := by
  rw [writeNumber, safeInteger?_intCast safe]
  simp only
  split
  · rename_i negative
    rw [List.cons_append, readNumber, readMagnitude_decimal numbers true safe stops, if_pos rfl]
    congr 4
    omega
  · rename_i positive
    have unsigned : readNumber numbers (decimal number.natAbs ++ rest) =
        readMagnitude numbers false (decimal number.natAbs ++ rest) := by
      cases text : decimal number.natAbs with
      | nil => exact absurd text (decimal_ne_nil _)
      | cons first digits =>
          have digit := isDigit_decimal number.natAbs first (by rw [text]; exact List.mem_cons_self)
          have noSign : first ≠ '-' := by
            rintro rfl
            cases digit
          rw [List.cons_append, readNumber]
          simpa using noSign
    rw [unsigned, readMagnitude_decimal numbers false safe stops]
    simp only [Bool.false_eq_true, if_false]
    congr 4
    omega

/-! ## Values -/

/-- A value that stands for itself in JSON: its numbers are safe integers, and its objects list their
properties in the order of enumeration. -/
inductive Portable : Value → Prop
  | null : Portable .null
  | bool (value : Bool) : Portable (.scalar (.bool value))
  | num (number : ℤ) (safe : number.natAbs < 2 ^ 53) : Portable (.num number)
  | str (text : String) : Portable (.str text)
  | arr (items : List Value) (each : ∀ item ∈ items, Portable item) : Portable (.arr items)
  | obj (fields : List (String × Value))
      (ordered : (fields.map Prod.fst).Pairwise EnumeratedBefore)
      (each : ∀ field ∈ fields, Portable field.2) : Portable (.obj fields)

variable {numbers : NumberFormat}

theorem isDigit_or_sign_writeNumber (numbers : NumberFormat) {number : ℤ}
    (safe : number.natAbs < 2 ^ 53) :
    ∃ first rest, writeNumber numbers number = first :: rest ∧
      (first = '-' ∨ first.isDigit = true) := by
  obtain ⟨first, rest, split⟩ := List.exists_cons_of_ne_nil (decimal_ne_nil number.natAbs)
  have digit := isDigit_decimal number.natAbs first (by rw [split]; exact List.mem_cons_self)
  rw [writeNumber, safeInteger?_intCast safe]
  simp only
  split
  · exact ⟨'-', _, rfl, Or.inl rfl⟩
  · exact ⟨first, rest, split, Or.inr digit⟩

/-- No blank, and no end of an array or object. -/
def StartsValue (first : Char) : Prop :=
  isBlank first = false ∧ first ≠ ']' ∧ first ≠ '\x7d'

instance (first : Char) : Decidable (StartsValue first) := by
  unfold StartsValue
  infer_instance

theorem startsValue_of_digit {first : Char} (numeral : first = '-' ∨ first.isDigit = true) :
    StartsValue first := by
  rcases numeral with rfl | digit
  · decide
  · have apart : ∀ other : Char, other.isDigit = false → first ≠ other := by
      rintro other no rfl
      rw [digit] at no
      cases no
    have noBlank : isBlank first = false := by
      rw [isBlank, decide_eq_false (apart ' ' (by decide)), decide_eq_false (apart '\n' (by decide)),
        decide_eq_false (apart '\r' (by decide)), decide_eq_false (apart '\t' (by decide))]
      rfl
    exact ⟨noBlank, apart ']' (by decide), apart '\x7d' (by decide)⟩

theorem exists_first {value : Value} (portable : Portable value) :
    ∃ first rest, write numbers value = first :: rest ∧ StartsValue first := by
  cases portable with
  | null => exact ⟨'n', _, rfl, by decide⟩
  | bool value =>
      cases value with
      | true => exact ⟨'t', _, rfl, by decide⟩
      | false => exact ⟨'f', _, rfl, by decide⟩
  | num number safe =>
      obtain ⟨first, rest, split, numeral⟩ := isDigit_or_sign_writeNumber numbers safe
      exact ⟨first, rest, split, startsValue_of_digit numeral⟩
  | str text => exact ⟨'"', _, rfl, by decide⟩
  | arr items each => exact ⟨'[', _, rfl, by decide⟩
  | obj fields ordered each => exact ⟨'\x7b', _, rfl, by decide⟩

theorem skipBlank_of_startsValue {first : Char} (starts : StartsValue first) (rest : List Char) :
    skipBlank (first :: rest) = first :: rest := by
  rw [skipBlank, List.dropWhile_cons_of_neg (by simp [starts.1])]

/-! ### Arrays and objects -/

theorem stops_of_punctuation {first : Char} (rest : List Char)
    (punctuation : first ∈ [',', ']', '\x7d']) : Stops (first :: rest) := by
  intro other same
  obtain rfl := Option.some.inj same
  simp only [List.mem_cons, List.not_mem_nil, or_false] at punctuation
  rcases punctuation with rfl | rfl | rfl <;> decide

theorem separated_cons_cons (piece next : List Char) (pieces : List (List Char)) :
    separated (piece :: next :: pieces) = piece ++ ',' :: separated (next :: pieces) := by
  simp [separated, List.intercalate]

section Elements

variable {α : Type} {read : List Char → Option (α × List Char)} {text : α → List Char} {close : Char}

/-- Elements that are read back one by one are read back with commas between them. -/
theorem readSeparated_separated (closes : close = ']' ∨ close = '\x7d') {elements : List α}
    (each : ∀ element ∈ elements, ∀ rest, Stops rest →
      read (text element ++ rest) = some (element, rest))
    (filled : elements ≠ []) {fuel : Nat} (enough : elements.length ≤ fuel) (rest : List Char) :
    readSeparated read close fuel (separated (elements.map text) ++ close :: rest) =
      some (elements, rest) := by
  have punctuation : close ∈ [',', ']', '\x7d'] := by rcases closes with rfl | rfl <;> simp
  have blank : skipBlank (close :: rest) = close :: rest := by rcases closes with rfl | rfl <;> rfl
  have noComma : close ≠ ',' := by rcases closes with rfl | rfl <;> decide
  induction elements generalizing fuel with
  | nil => exact absurd rfl filled
  | cons element elements ih =>
      cases fuel with
      | zero => cases enough
      | succ fuel =>
          cases elements with
          | nil =>
              have first := each element List.mem_cons_self (close :: rest)
                (stops_of_punctuation rest punctuation)
              simp only [separated, List.map_cons, List.map_nil, List.intercalate_singleton,
                readSeparated, first, Option.bind_eq_bind, Option.bind_some, blank, if_neg noComma,
                if_true]
          | cons next elements =>
              have first := each element List.mem_cons_self
                (',' :: (separated ((next :: elements).map text) ++ close :: rest))
                (stops_of_punctuation _ (by decide))
              have more := ih (fun other member => each other (List.mem_cons_of_mem _ member))
                (by simp) (Nat.le_of_succ_le_succ enough)
              have comma : skipBlank
                  (',' :: (separated ((next :: elements).map text) ++ close :: rest)) =
                    ',' :: (separated ((next :: elements).map text) ++ close :: rest) := rfl
              rw [List.map_cons, List.map_cons, separated_cons_cons, ← List.map_cons,
                List.append_assoc, List.cons_append, readSeparated, first]
              simp only [Option.bind_eq_bind, Option.bind_some, comma, if_true, more]
              rfl

theorem length_le_separated (pieces : List (List Char)) :
    pieces.length ≤ (separated pieces).length + 1 := by
  induction pieces with
  | nil => exact Nat.zero_le _
  | cons piece pieces ih =>
      cases pieces with
      | nil => simp
      | cons next pieces =>
          rw [separated_cons_cons]
          simp only [List.length_append, List.length_cons] at ih ⊢
          omega

theorem length_le_separated_of_mem {piece : List Char} {pieces : List (List Char)}
    (member : piece ∈ pieces) : piece.length ≤ (separated pieces).length := by
  induction pieces with
  | nil => cases member
  | cons first pieces ih =>
      cases pieces with
      | nil => simp [separated, List.mem_singleton.mp member]
      | cons next pieces =>
          rw [separated_cons_cons, List.length_append, List.length_cons]
          rcases List.mem_cons.mp member with rfl | later
          · omega
          · have inside := ih later
            omega

/-- The elements of an array or an object are read back, of which there may be none. -/
theorem readElements_separated (closes : close = ']' ∨ close = '\x7d') {elements : List α}
    (each : ∀ element ∈ elements, ∀ rest, Stops rest →
      read (text element ++ rest) = some (element, rest))
    (starts : ∀ element ∈ elements, ∃ first more, text element = first :: more ∧ StartsValue first)
    (rest : List Char) :
    readElements read close (separated (elements.map text) ++ close :: rest) =
      some (elements, rest) := by
  cases elements with
  | nil =>
      have blank : skipBlank (close :: rest) = close :: rest := by
        rcases closes with rfl | rfl <;> rfl
      simp [readElements, separated, List.intercalate, blank]
  | cons element elements =>
      obtain ⟨first, more, split, starts⟩ := starts element List.mem_cons_self
      have ⟨others, whole⟩ : ∃ others,
          separated ((element :: elements).map text) ++ close :: rest = first :: others := by
        cases elements with
        | nil => exact ⟨more ++ close :: rest, by simp [separated, split]⟩
        | cons next elements =>
            rw [List.map_cons, List.map_cons, separated_cons_cons, split]
            exact ⟨_, rfl⟩
      have inside : (skipBlank (first :: others)).head? ≠ some close := by
        rw [skipBlank_of_startsValue starts, List.head?_cons]
        rcases closes with rfl | rfl
        · exact fun same => starts.2.1 (Option.some.inj same)
        · exact fun same => starts.2.2 (Option.some.inj same)
      have count := length_le_separated ((element :: elements).map text)
      rw [readElements, whole, if_neg inside, ← whole]
      refine readSeparated_separated closes each (by simp) ?_ rest
      simp only [List.length_map, List.length_append, List.length_cons] at count ⊢
      omega

end Elements

/-! ### The round trip -/

/-- A value is read back from a text that goes on with something else. -/
def ReadBack (numbers : NumberFormat) (value : Value) : Prop :=
  ∀ fuel rest, (write numbers value).length ≤ fuel → Stops rest →
    readValue numbers fuel (write numbers value ++ rest) = some (value, rest)

theorem writeItems_eq (items : List Value) :
    writeItems numbers items = items.map (write numbers) := by
  induction items with
  | nil => rfl
  | cons item items ih => rw [writeItems, ih, List.map_cons]

theorem writeFields_eq (fields : List (String × Value)) :
    writeFields numbers fields =
      fields.map fun field => writeField field.1 (write numbers field.2) := by
  induction fields with
  | nil => rfl
  | cons field fields ih => rw [writeFields, ih, List.map_cons]

/-- Properties in the order of enumeration are put back in that order. -/
theorem objectOf_ordered {fields : List (String × Value)}
    (ordered : (fields.map Prod.fst).Pairwise EnumeratedBefore) : objectOf fields = .obj fields := by
  suffices all : ∀ front back : List (String × Value),
      ((front ++ back).map Prod.fst).Pairwise EnumeratedBefore →
        back.foldl (fun entries field => Record.putEntry field.1 field.2 entries) front =
          front ++ back by
    rw [objectOf, all [] fields ordered, List.nil_append]
  intro front back ordered
  induction back generalizing front with
  | nil => simp
  | cons field back ih =>
      have last : Record.putEntry field.1 field.2 front = front ++ [field] := by
        have before : ∀ entry ∈ front, EnumeratedBefore entry.1 field.1 := by
          rw [List.map_append, List.pairwise_append] at ordered
          intro entry member
          exact ordered.2.2 _ (List.mem_map_of_mem member) _ (List.mem_map_of_mem List.mem_cons_self)
        clear ih ordered
        induction front with
        | nil => rfl
        | cons entry front ih =>
            have first := before entry List.mem_cons_self
            rw [Record.putEntry, if_neg first.1, if_pos first,
              ih fun other member => before other (List.mem_cons_of_mem _ member)]
            rfl
      rw [List.foldl_cons, last, ih (front ++ [field]) (by simpa using ordered)]
      simp

theorem readField_writeField {read : List Char → Option (Value × List Char)}
    {field : String × Value} {text rest : List Char}
    (back : read (text ++ rest) = some (field.2, rest)) :
    readField read (writeField field.1 text ++ rest) = some (field, rest) := by
  have literal := readString_text field.1 (':' :: (text ++ rest))
  have quote : ∀ more, skipBlank ('"' :: more) = '"' :: more := fun _ => rfl
  have colon : skipBlank (':' :: (text ++ rest)) = ':' :: (text ++ rest) := rfl
  simp only [writeField, writeString, List.cons_append, List.append_assoc, List.nil_append,
    readField, quote, if_true, literal, Option.bind_eq_bind, Option.bind_some, colon, back,
    Option.map_some]

/-- What is written is read back, from the text alone and from a text that goes on. -/
theorem readBack {value : Value} (portable : Portable value) : ReadBack numbers value := by
  induction portable with
  | null =>
      intro fuel rest enough stops
      obtain ⟨fuel, rfl⟩ := Nat.exists_eq_add_of_lt enough
      rfl
  | bool value =>
      intro fuel rest enough stops
      cases value with
      | true =>
          obtain ⟨fuel, rfl⟩ := Nat.exists_eq_add_of_lt enough
          rfl
      | false =>
          obtain ⟨fuel, rfl⟩ := Nat.exists_eq_add_of_lt enough
          rfl
  | num number safe =>
      intro fuel rest enough stops
      obtain ⟨first, more, split, numeral⟩ := isDigit_or_sign_writeNumber numbers safe
      have written : write numbers (.num number) = first :: more := split
      have back := readNumber_writeNumber numbers safe stops
      rw [split, List.cons_append] at back
      have apart : first ≠ '"' ∧ first ≠ '[' ∧ first ≠ '\x7b' := by
        refine ⟨?_, ?_, ?_⟩ <;>
          (rintro rfl; revert numeral; decide)
      cases fuel with
      | zero => rw [written] at enough; cases enough
      | succ fuel =>
          rw [written, List.cons_append, readValue,
            skipBlank_of_startsValue (startsValue_of_digit numeral)]
          simp only [if_neg apart.1, if_neg apart.2.1, if_neg apart.2.2, if_pos numeral, back]
  | str text =>
      intro fuel rest enough stops
      cases fuel with
      | zero => cases enough
      | succ fuel =>
          have literal := readString_text text rest
          have blank : skipBlank ('"' :: (text.toList.flatMap writeChar ++ '"' :: rest)) =
              '"' :: (text.toList.flatMap writeChar ++ '"' :: rest) := rfl
          simp only [write, writeScalar, writeString, List.cons_append, List.append_assoc,
            List.nil_append, readValue, blank, if_true, literal, Option.map_some]
  | arr items each ih =>
      intro fuel rest enough stops
      cases fuel with
      | zero => cases enough
      | succ fuel =>
          rw [write, writeItems_eq] at enough ⊢
          have back : ∀ item ∈ items, ∀ rest, Stops rest →
              readValue numbers fuel (write numbers item ++ rest) = some (item, rest) := by
            intro item listed rest stops
            refine ih item listed fuel rest ?_ stops
            have inside := length_le_separated_of_mem
              (List.mem_map_of_mem listed : write numbers item ∈ items.map (write numbers))
            simp only [List.length_append, List.length_cons] at enough
            omega
          have elements := readElements_separated (Or.inl rfl) back
            (fun item listed => exists_first (each item listed)) rest
          have blank : skipBlank ('[' :: (separated (items.map (write numbers)) ++ ']' :: rest)) =
              '[' :: (separated (items.map (write numbers)) ++ ']' :: rest) := rfl
          rw [List.cons_append, List.cons_append, List.append_assoc, List.cons_append,
            List.nil_append, readValue, blank]
          simp only [if_neg (by decide : '[' ≠ '"'), if_true, elements, Option.map_some]
  | obj fields ordered each ih =>
      intro fuel rest enough stops
      cases fuel with
      | zero => cases enough
      | succ fuel =>
          rw [write, writeFields_eq] at enough ⊢
          have back : ∀ field ∈ fields, ∀ rest, Stops rest →
              readField (readValue numbers fuel)
                  (writeField field.1 (write numbers field.2) ++ rest) = some (field, rest) := by
            intro field listed rest stops
            refine readField_writeField (ih field listed fuel rest ?_ stops)
            have inside := length_le_separated_of_mem
              (List.mem_map_of_mem listed :
                writeField field.1 (write numbers field.2) ∈
                  fields.map fun field => writeField field.1 (write numbers field.2))
            simp only [writeField, List.length_append, List.length_cons] at enough inside
            omega
          have elements := readElements_separated (Or.inr rfl) back
            (fun field listed => ⟨'"', _, rfl, by decide⟩) rest
          have blank : ∀ more, skipBlank ('\x7b' :: more) = '\x7b' :: more := fun _ => rfl
          rw [List.cons_append, List.cons_append, List.append_assoc, List.cons_append,
            List.nil_append, readValue, blank]
          simp only [if_neg (by decide : '\x7b' ≠ '"'), if_neg (by decide : '\x7b' ≠ '['), if_true,
            elements, Option.map_some, objectOf_ordered ordered]

/-- `JSON.parse` reads what `write` has written. -/
theorem parse_write {value : Value} (portable : Portable value) :
    parse numbers (write numbers value) = some value := by
  have reads : ReadBack numbers value := readBack portable
  have back := reads ((write numbers value).length + 1) [] (Nat.le_succ _) nofun
  rw [List.append_nil] at back
  rw [parse, back]
  rfl

/-- A portable value is serialised as it is. -/
theorem toJson_of_portable {value : Value} (portable : Portable value) :
    ¬value.Unserialisable ∧ value.toJson = value := by
  induction portable with
  | null | bool | num | str => exact ⟨id, rfl⟩
  | arr items each ih =>
      refine ⟨id, ?_⟩
      have same : Value.toJsonItems items = items := by
        clear each
        induction items with
        | nil => rfl
        | cons item items rest =>
            obtain ⟨serialisable, same⟩ := ih item List.mem_cons_self
            rw [Value.toJsonItems, if_neg serialisable, same,
              rest fun other member => ih other (List.mem_cons_of_mem _ member)]
      rw [Value.toJson, same]
  | obj fields ordered each ih =>
      refine ⟨id, ?_⟩
      have same : Value.toJsonFields fields = fields := by
        clear each ordered
        induction fields with
        | nil => rfl
        | cons field fields rest =>
            obtain ⟨serialisable, same⟩ := ih field List.mem_cons_self
            rw [Value.toJsonFields, if_neg serialisable, same,
              rest fun other member => ih other (List.mem_cons_of_mem _ member)]
      rw [Value.toJson, same]

end Json
end Js
