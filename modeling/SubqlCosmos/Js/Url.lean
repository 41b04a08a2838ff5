import SubqlCosmos.Js.Text

/-!
# URLs and their parameters

What `new URL(text).searchParams` gives for a text: the parser drops blanks, the query stands between
the first question mark and the fragment, and its pieces are decoded as
`application/x-www-form-urlencoded`.
-/

namespace Js

/-! ## UTF-8 -/

/-- The character put in place of what cannot be decoded. -/
def replacement : Char := '\uFFFD'

/-- The state of a decoder: the bits read so far, the number of bytes still to come, and the bounds
on the next one. -/
structure Utf8 where
  codePoint : Nat
  needed : Nat
  lower : Nat
  upper : Nat
deriving DecidableEq, Repr

namespace Utf8

/-- Between characters. -/
def start : Utf8 := { codePoint := 0, needed := 0, lower := 0x80, upper := 0xBF }

/-- The first byte of a character. -/
def lead (byte : Nat) : List Char × Utf8 :=
  if byte ≤ 0x7F then ([Char.ofNat byte], start)
  else if 0xC2 ≤ byte ∧ byte ≤ 0xDF then ([], { start with codePoint := byte % 0x20, needed := 1 })
  else if 0xE0 ≤ byte ∧ byte ≤ 0xEF then
    ([], { codePoint := byte % 0x10
           needed := 2
           lower := if byte = 0xE0 then 0xA0 else 0x80
           upper := if byte = 0xED then 0x9F else 0xBF })
  else if 0xF0 ≤ byte ∧ byte ≤ 0xF4 then
    ([], { codePoint := byte % 0x8
           needed := 3
           lower := if byte = 0xF0 then 0x90 else 0x80
           upper := if byte = 0xF4 then 0x8F else 0xBF })
  else ([replacement], start)

/-- Any byte: one that does not continue the character begun is taken as a first byte. -/
def feed (state : Utf8) (byte : Nat) : List Char × Utf8 :=
  if state.needed = 0 then lead byte
  else if byte < state.lower ∨ state.upper < byte then
    (replacement :: (lead byte).1, (lead byte).2)
  else
    let codePoint := state.codePoint * 0x40 + byte % 0x40
    if state.needed = 1 then ([Char.ofNat codePoint], start)
    else ([], { start with codePoint := codePoint, needed := state.needed - 1 })

/-- What is left of a character begun when no further byte comes. -/
def flush (state : Utf8) : List Char := if state.needed = 0 then [] else [replacement]

end Utf8

/-! ## Form encoding -/

/-- The value of a hexadecimal digit. -/
def hexDigit? (c : Char) : Option Nat :=
  if 0x30 ≤ c.toNat ∧ c.toNat ≤ 0x39 then some (c.toNat - 0x30)
  else if 0x41 ≤ c.toNat ∧ c.toNat ≤ 0x46 then some (c.toNat - 0x41 + 10)
  else if 0x61 ≤ c.toNat ∧ c.toNat ≤ 0x66 then some (c.toNat - 0x61 + 10)
  else none

/-- Encoded bytes and plain characters, a plus sign read as a space. -/
def formTokens : List Char → List (Nat ⊕ Char)
  | [] => []
  | '%' :: high :: low :: text =>
      match hexDigit? high, hexDigit? low with
      | some upper, some lower => .inl (16 * upper + lower) :: formTokens text
      | _, _ => .inr '%' :: formTokens (high :: low :: text)
  | c :: text => .inr (if c = '+' then ' ' else c) :: formTokens text

/-- Encoded bytes are decoded as UTF-8, and a plain character ends a sequence of them. -/
def decodeTokens : Utf8 → List (Nat ⊕ Char) → List Char
  | state, [] => state.flush
  | state, .inl byte :: tokens => (state.feed byte).1 ++ decodeTokens (state.feed byte).2 tokens
  | state, .inr c :: tokens => state.flush ++ c :: decodeTokens .start tokens

/-- A name or value of a form. -/
def formDecode (text : List Char) : List Char := decodeTokens .start (formTokens text)

/-- A parameter out of its piece of the query. -/
def formParam (piece : List Char) : List Char × List Char :=
  (formDecode (piece.takeWhile (· ≠ '=')), formDecode (piece.dropWhile (· ≠ '=')).tail)

/-- The parameters of the pieces of a query; empty pieces are none. -/
def pieceParams (pieces : List (List Char)) : List (List Char × List Char) :=
  (pieces.filter (· ≠ [])).map formParam

/-- The parameters of a query. -/
def formParams (query : List Char) : List (List Char × List Char) :=
  pieceParams (query.splitOn '&')

/-! ## URLs -/

/-- A control character or a space. -/
def isBlank (c : Char) : Bool := c.toNat ≤ 0x20

/-- A character the URL parser drops wherever it stands. -/
def isTabOrNewline (c : Char) : Bool := c = '\t' || c = '\n' || c = '\r'

/-- A text without what the URL parser drops, except for blanks at the end. -/
def leftCleaned (text : List Char) : List Char :=
  (text.filter fun c => ¬isTabOrNewline c).dropWhile isBlank

/-- A text without tabs and line breaks, and without blanks around it. -/
def cleaned (text : List Char) : List Char := (leftCleaned text).rdropWhile isBlank

/-- What stands between the first question mark and the fragment. -/
def queryPart (text : List Char) : List Char :=
  ((text.takeWhile (· ≠ '#')).dropWhile (· ≠ '?')).tail

/-- What stands before the query and the fragment: scheme, host, port and path. -/
def frontPart (text : List Char) : List Char := text.takeWhile fun c => c ≠ '?' ∧ c ≠ '#'

/-- The fragment with its hash sign. -/
def fragmentPart (text : List Char) : List Char := text.dropWhile (· ≠ '#')

/-- `new URL(text).searchParams`. -/
def searchParams (text : List Char) : List (List Char × List Char) :=
  formParams (queryPart (cleaned text))

/-- `searchParams.get(name)`. -/
def getParam (params : List (List Char × List Char)) (name : List Char) : Option (List Char) :=
  (params.find? fun param => param.1 = name).map Prod.snd

/-! ## Plain characters -/

/-- The character stands for itself in a form and completes no encoded byte. -/
def Literal (c : Char) : Prop := c ≠ '%' ∧ c ≠ '+' ∧ hexDigit? c = none

theorem formTokens_of_ne {c : Char} (plain : c ≠ '%') (text : List Char) :
    formTokens (c :: text) = .inr (if c = '+' then ' ' else c) :: formTokens text := by
  rw [formTokens]
  exact fun high low rest percent => absurd percent plain

theorem formTokens_percent {text : List Char}
    (undigit : ∀ high low rest, text = high :: low :: rest →
      hexDigit? high = none ∨ hexDigit? low = none) :
    formTokens ('%' :: text) = .inr '%' :: formTokens text := by
  match text with
  | [] => rfl
  | [high] => rfl
  | high :: low :: rest =>
      rw [formTokens]
      rcases undigit high low rest rfl with highNone | lowNone
      · rw [highNone]
      · rw [lowNone]
        cases hexDigit? high <;> rfl

theorem formTokens_append (front : List Char) {c : Char} (literal : Literal c) (back : List Char) :
    formTokens (front ++ c :: back) = formTokens front ++ .inr c :: formTokens back := by
  induction front using formTokens.induct with
  | case1 =>
      rw [List.nil_append, formTokens_of_ne literal.1, if_neg literal.2.1]
      rfl
  | case2 high low text upper lower lowDigit highDigit induction =>
      simp only [List.cons_append, formTokens, highDigit, lowDigit, induction]
  | case3 high low text undigit induction =>
      have undecoded : hexDigit? high = none ∨ hexDigit? low = none := by
        by_contra both
        obtain ⟨highSome, lowSome⟩ := not_or.mp both
        obtain ⟨upper, highDigit⟩ := Option.ne_none_iff_exists'.mp highSome
        obtain ⟨lower, lowDigit⟩ := Option.ne_none_iff_exists'.mp lowSome
        exact undigit upper lower highDigit lowDigit
      have here : ∀ rest, formTokens ('%' :: high :: low :: rest) =
          .inr '%' :: formTokens (high :: low :: rest) := by
        intro rest
        refine formTokens_percent fun first second others same => ?_
        cases same
        exact undecoded
      rw [List.cons_append, List.cons_append, List.cons_append, here, here]
      exact congrArg (List.cons _) induction
  | case4 d text short induction =>
      rw [List.cons_append]
      by_cases percent : d = '%'
      · subst d
        -- the literal character comes too early to complete an encoded byte
        have whole : formTokens ('%' :: text) = .inr '%' :: formTokens text :=
          formTokens_percent fun high low rest same => (short high low rest rfl same).elim
        have longer : formTokens ('%' :: (text ++ c :: back)) =
            .inr '%' :: formTokens (text ++ c :: back) := by
          refine formTokens_percent fun high low rest same => ?_
          match text with
          | [] => exact Or.inl ((List.cons_eq_cons.mp same).1 ▸ literal.2.2)
          | [other] =>
              have below := (List.cons_eq_cons.mp same).2
              exact Or.inr ((List.cons_eq_cons.mp below).1 ▸ literal.2.2)
          | first :: second :: others => exact (short first second others rfl rfl).elim
        rw [whole, longer, induction]
        rfl
      · rw [formTokens_of_ne percent, formTokens_of_ne percent, induction]
        rfl

theorem decodeTokens_append (state : Utf8) (front : List (Nat ⊕ Char)) (c : Char)
    (back : List (Nat ⊕ Char)) :
    decodeTokens state (front ++ .inr c :: back) =
      decodeTokens state front ++ c :: decodeTokens .start back := by
  induction front generalizing state with
  | nil => rfl
  | cons token front ih =>
      cases token with
      | inl byte => simp [decodeTokens, ih]
      | inr d => simp [decodeTokens, ih]

theorem formDecode_append (front : List Char) {c : Char} (literal : Literal c) (back : List Char) :
    formDecode (front ++ c :: back) = formDecode front ++ c :: formDecode back := by
  rw [formDecode, formTokens_append front literal, decodeTokens_append]
  rfl

@[simp]
theorem formDecode_nil : formDecode [] = [] := rfl

/-! ## Parameters of a longer query -/

theorem formParam_of_eq {name : List Char} (plain : '=' ∉ name) (value : List Char) :
    formParam (name ++ '=' :: value) = (formDecode name, formDecode value) := by
  rw [formParam, takeWhile_ne_append plain, dropWhile_ne_append plain]
  simp

theorem formParam_of_not_mem {piece : List Char} (plain : '=' ∉ piece) :
    formParam piece = (formDecode piece, []) := by
  rw [formParam, takeWhile_ne_of_not_mem plain, dropWhile_ne_eq_nil_iff.mpr plain]
  rfl

theorem exists_eq_of_mem {piece : List Char} (member : '=' ∈ piece) :
    ∃ name value, piece = name ++ '=' :: value ∧ '=' ∉ name := by
  obtain ⟨name, value, split, plain⟩ := List.eq_append_cons_of_mem member
  exact ⟨name, value, split, plain⟩

theorem formDecode_append_ne {c : Char} (literal : Literal c) (text rest : List Char) :
    formDecode (text ++ c :: rest) ≠ formDecode text := by
  intro same
  have lengths := congrArg List.length same
  rw [formDecode_append text literal rest] at lengths
  simp at lengths

theorem formParam_append_value {piece : List Char} (member : '=' ∈ piece) {c : Char}
    (literal : Literal c) (rest : List Char) :
    (formParam (piece ++ c :: rest)).1 = (formParam piece).1 ∧
      (formParam (piece ++ c :: rest)).2 ≠ (formParam piece).2 := by
  obtain ⟨name, value, rfl, plain⟩ := exists_eq_of_mem member
  rw [List.append_assoc, List.cons_append, formParam_of_eq plain, formParam_of_eq plain]
  exact ⟨rfl, formDecode_append_ne literal value rest⟩

/-- A piece without one has another name, in which the character occurs. -/
theorem formParam_append_name {piece : List Char} (plain : '=' ∉ piece) {c : Char}
    (literal : Literal c) (noEquals : c ≠ '=') (rest : List Char) :
    c ∈ (formParam (piece ++ c :: rest)).1 ∧
      (formParam (piece ++ c :: rest)).1 ≠ (formParam piece).1 := by
  obtain ⟨front, longer⟩ : ∃ front,
      (formParam (piece ++ c :: rest)).1 = formDecode (piece ++ c :: front) := by
    by_cases inRest : '=' ∈ rest
    · obtain ⟨front, value, rfl, frontPlain⟩ := exists_eq_of_mem inRest
      have early : '=' ∉ piece ++ c :: front := by simp [plain, frontPlain, Ne.symm noEquals]
      have whole : piece ++ c :: (front ++ '=' :: value) =
          (piece ++ c :: front) ++ '=' :: value := by simp
      exact ⟨front, by rw [whole, formParam_of_eq early]⟩
    · have early : '=' ∉ piece ++ c :: rest := by simp [plain, inRest, Ne.symm noEquals]
      exact ⟨rest, by rw [formParam_of_not_mem early]⟩
  rw [longer, formParam_of_not_mem plain]
  refine ⟨?_, formDecode_append_ne literal piece front⟩
  rw [formDecode_append piece literal front]
  simp

@[simp]
theorem pieceParams_nil : pieceParams [] = [] := rfl

theorem pieceParams_append (front back : List (List Char)) :
    pieceParams (front ++ back) = pieceParams front ++ pieceParams back := by
  rw [pieceParams, List.filter_append, List.map_append]
  rfl

theorem pieceParams_cons {piece : List Char} (nonempty : piece ≠ []) (pieces : List (List Char)) :
    pieceParams (piece :: pieces) = formParam piece :: pieceParams pieces := by
  rw [pieceParams, List.filter_cons_of_pos (by simpa using nonempty)]
  rfl

/-- Taking the parameters of one name out of a query never leaves the query cut off before a literal
character. -/
theorem formParams_ne_filter {query name : List Char} {c : Char} (literal : Literal c)
    (noSeparator : c ≠ '&') (noEquals : c ≠ '=') (foreign : c ∉ name) (rest : List Char) :
    formParams query ≠ (formParams (query ++ c :: rest)).filter fun param => param.1 ≠ name := by
  obtain ⟨front, last, first, back, split, restSplit, joined⟩ :=
    splitOn_append '&' query (c :: rest)
  obtain ⟨tail, rfl⟩ := splitOn_head_cons noSeparator restSplit
  have grown : last ++ c :: tail ≠ [] := by simp
  intro same
  rw [formParams, formParams, split, joined, pieceParams_append, pieceParams_append,
    pieceParams_cons grown, List.filter_append] at same
  have unnamed : ∀ param ∈ pieceParams front ++ pieceParams [last], param.1 ≠ name := by
    intro param member
    rw [same, ← List.filter_append] at member
    simpa using (List.mem_filter.mp member).2
  have frontKept : (pieceParams front).filter (fun param => param.1 ≠ name) = pieceParams front :=
    List.filter_eq_self.mpr fun param member => by
      simpa using unnamed param (List.mem_append_left _ member)
  rw [frontKept, List.append_cancel_left_eq] at same
  by_cases empty : last = []
  · -- the piece starts with the literal character, so it has another name and has to stay
    subst last
    obtain ⟨inName, -⟩ := formParam_append_name (List.not_mem_nil) literal noEquals tail
    have other : (formParam ([] ++ c :: tail)).1 ≠ name := fun equal => foreign (equal ▸ inName)
    rw [List.filter_cons_of_pos (by simpa using other)] at same
    exact absurd same (by simp [pieceParams])
  · rw [pieceParams_cons empty, pieceParams_nil] at same
    have lastName : (formParam last).1 ≠ name :=
      unnamed _ (List.mem_append_right _ (by simp [pieceParams_cons empty]))
    by_cases member : '=' ∈ last
    · obtain ⟨sameName, otherValue⟩ := formParam_append_value member literal tail
      rw [List.filter_cons_of_pos (by simpa [sameName] using lastName)] at same
      exact otherValue (congrArg Prod.snd (List.cons_eq_cons.mp same).1).symm
    · obtain ⟨inName, otherName⟩ := formParam_append_name member literal noEquals tail
      have other : (formParam (last ++ c :: tail)).1 ≠ name := fun equal => foreign (equal ▸ inName)
      rw [List.filter_cons_of_pos (by simpa using other)] at same
      exact otherName (congrArg Prod.fst (List.cons_eq_cons.mp same).1).symm

/-- A parameter with a value keeps its name wherever its value is cut or goes on. -/
theorem named_of_formParams {query name value : List Char}
    (member : (name, value) ∈ formParams query) (nonempty : value ≠ []) :
    ∃ front back, query = front ++ '=' :: back ∧ back ≠ [] ∧
      ∀ other, ∃ param ∈ formParams (front ++ '=' :: other), param.1 = name := by
  obtain ⟨piece, inside, decoded⟩ := List.mem_map.mp member
  have listed : piece ∈ query.splitOn '&' := (List.mem_filter.mp inside).1
  have equals : '=' ∈ piece := by
    by_contra plain
    rw [formParam_of_not_mem plain] at decoded
    exact nonempty (congrArg Prod.snd decoded).symm
  obtain ⟨text, valueText, rfl, plain⟩ := exists_eq_of_mem equals
  rw [formParam_of_eq plain] at decoded
  obtain ⟨rfl, rfl⟩ := Prod.mk.inj decoded
  obtain ⟨pieces, others, split⟩ := List.append_of_mem listed
  obtain ⟨before, after, rfl, beforeSplit⟩ := cut_of_splitOn split
  refine ⟨before, valueText ++ after, by simp, ?_, fun other => ?_⟩
  · intro empty
    obtain ⟨rfl, -⟩ := List.append_eq_nil_iff.mp empty
    exact nonempty rfl
  · obtain ⟨front, last, first, back, frontSplit, otherSplit, joined⟩ :=
      splitOn_append '&' before ('=' :: other)
    obtain ⟨-, same⟩ := List.append_inj' (beforeSplit.symm.trans frontSplit) rfl
    obtain rfl : text = last := by simpa using same
    obtain ⟨tail, rfl⟩ := splitOn_head_cons (by decide) otherSplit
    refine ⟨formParam (text ++ '=' :: tail), ?_, by rw [formParam_of_eq plain]⟩
    rw [formParams, joined, pieceParams_append, pieceParams_cons (by simp)]
    simp

/-! ## Cutting a URL -/

theorem isBlank_of_isTabOrNewline {c : Char} (dropped : isTabOrNewline c = true) :
    isBlank c = true := by
  have cases : c = '\t' ∨ c = '\n' ∨ c = '\r' := by
    simpa [isTabOrNewline, or_assoc] using dropped
  rcases cases with rfl | rfl | rfl <;> decide

theorem literal_of_isBlank {c : Char} (blank : isBlank c = true) : Literal c := by
  have low : c.toNat ≤ 0x20 := by simpa [isBlank] using blank
  refine ⟨?_, ?_, ?_⟩
  · rintro rfl
    exact absurd low (by decide)
  · rintro rfl
    exact absurd low (by decide)
  · rw [hexDigit?, if_neg (by omega), if_neg (by omega), if_neg (by omega)]

theorem rdropWhile_append_cons {α : Type} {drops : α → Bool} {item : α} (kept : ¬drops item = true)
    (front back : List α) :
    (front ++ item :: back).rdropWhile drops = front ++ item :: back.rdropWhile drops := by
  induction back using List.reverseRecOn with
  | nil => rw [List.rdropWhile_concat_neg _ _ _ kept, List.rdropWhile_nil]
  | append_singleton back last induction =>
      have whole : front ++ item :: (back ++ [last]) = (front ++ item :: back) ++ [last] := by simp
      rw [whole, List.rdropWhile_concat, List.rdropWhile_concat]
      split
      · exact induction
      · simp

/-- The text up to a visible character keeps its blanks. -/
theorem cleaned_append (front : List Char) {c : Char} (visible : ¬isBlank c = true)
    (back : List Char) :
    cleaned (front ++ c :: back) =
      leftCleaned front ++
        c :: (back.filter fun c => ¬isTabOrNewline c).rdropWhile isBlank := by
  have kept : ¬isTabOrNewline c = true := fun dropped => visible (isBlank_of_isTabOrNewline dropped)
  have stays : leftCleaned (front ++ c :: back) =
      leftCleaned front ++ c :: back.filter fun c => ¬isTabOrNewline c := by
    rw [leftCleaned, leftCleaned, List.filter_append, List.filter_cons_of_pos (by simpa using kept)]
    induction front.filter fun c => ¬isTabOrNewline c with
    | nil => simp [visible]
    | cons first rest induction =>
        rw [List.cons_append, List.dropWhile_cons, List.dropWhile_cons]
        split
        · exact induction
        · rfl
  rw [cleaned, stays, rdropWhile_append_cons visible]

theorem mem_cleaned {text : List Char} {c : Char} (visible : ¬isBlank c = true)
    (member : c ∈ text) : c ∈ cleaned text := by
  obtain ⟨before, after, rfl⟩ := List.append_of_mem member
  rw [cleaned_append before visible after]
  simp

theorem mem_of_mem_leftCleaned {text : List Char} {c : Char} (member : c ∈ leftCleaned text) :
    c ∈ text :=
  (List.mem_filter.mp ((List.dropWhile_suffix _).subset member)).1

theorem exists_blanks (text : List Char) :
    ∃ blanks, leftCleaned text = cleaned text ++ blanks ∧ ∀ c ∈ blanks, isBlank c = true :=
  ⟨(leftCleaned text).rtakeWhile isBlank, List.rdropWhile_append_rtakeWhile.symm,
    fun _ member => List.mem_rtakeWhile_imp member⟩

theorem queryPart_append {front : List Char} (noMark : '?' ∉ front) (noHash : '#' ∉ front)
    (rest : List Char) : queryPart (front ++ '?' :: rest) = rest.takeWhile (· ≠ '#') := by
  rw [queryPart, takeWhile_ne_append noHash, List.takeWhile_cons_of_pos (by decide),
    dropWhile_ne_append noMark]
  rfl

theorem queryPart_of_not_mem {text : List Char} (absent : '?' ∉ text.takeWhile (· ≠ '#')) :
    queryPart text = [] := by
  rw [queryPart, dropWhile_ne_eq_nil_iff.mpr absent]
  rfl

/-- A text with a query is cut at its first question mark. -/
theorem exists_of_queryPart {text : List Char} (nonempty : queryPart text ≠ []) :
    ∃ front, text = front ++ '?' :: (queryPart text ++ fragmentPart text) ∧ '?' ∉ front ∧
      '#' ∉ front := by
  have whole : text = text.takeWhile (· ≠ '#') ++ fragmentPart text :=
    List.takeWhile_append_dropWhile.symm
  have noHash : '#' ∉ text.takeWhile (· ≠ '#') := fun member => by
    simpa using List.mem_takeWhile_imp member
  have mark : '?' ∈ text.takeWhile (· ≠ '#') := by
    by_contra absent
    exact nonempty (queryPart_of_not_mem absent)
  obtain ⟨front, query, split, noMark⟩ := List.eq_append_cons_of_mem mark
  have isQuery : queryPart text = query := by
    rw [queryPart, split, dropWhile_ne_append noMark]
    rfl
  refine ⟨front, ?_, noMark, fun member => noHash (split ▸ List.mem_append_left _ member)⟩
  rw [isQuery, ← List.cons_append, ← List.append_assoc, ← split]
  exact whole

/-- Where a text goes on with a question mark, its cleaned text goes on with a literal character:
with that mark, or with a blank before it. -/
theorem exists_longer {front name : List Char} (noMark : '?' ∉ name)
    (noBlank : ∀ c ∈ name, ¬isBlank c = true) (back : List Char) :
    ∃ c rest, cleaned (front ++ '?' :: back) = cleaned front ++ c :: rest ∧ Literal c ∧ c ≠ '&' ∧
      c ≠ '=' ∧ c ∉ name ∧ c ≠ '#' := by
  obtain ⟨blanks, shape, blank⟩ := exists_blanks front
  rw [cleaned_append front (by decide) back, shape]
  cases blanks with
  | nil =>
      exact ⟨'?', _, by rw [List.append_nil], ⟨by decide, by decide, by decide⟩, by decide,
        by decide, noMark, by decide⟩
  | cons c blanks =>
      have isBlank_c := blank c List.mem_cons_self
      refine ⟨c, _, by rw [List.append_assoc]; rfl, literal_of_isBlank isBlank_c, ?_, ?_,
        fun member => noBlank c member isBlank_c, ?_⟩ <;>
      · rintro rfl
        exact absurd isBlank_c (by decide)

/-- Whatever stands before a later question mark has other parameters than those without the given
name. -/
theorem searchParams_ne_filter {front back name : List Char} (mark : '?' ∈ front)
    (noMark : '?' ∉ name) (noBlank : ∀ c ∈ name, ¬isBlank c = true)
    (named : ∃ param ∈ searchParams (front ++ '?' :: back), param.1 = name) :
    searchParams front ≠
      (searchParams (front ++ '?' :: back)).filter fun param => param.1 ≠ name := by
  obtain ⟨c, rest, longer, literal, noSeparator, noEquals, foreign, noHash⟩ :=
    exists_longer noMark noBlank back
  have markKept : '?' ∈ cleaned front := mem_cleaned (by decide) mark
  rw [searchParams, longer] at named
  rw [searchParams, searchParams, longer]
  by_cases hash : '#' ∈ cleaned front
  · -- the query is not cut at all, so the parameters of the name are still there
    obtain ⟨before, after, split, noHash⟩ := List.eq_append_cons_of_mem hash
    have sameQuery : queryPart (cleaned front ++ c :: rest) = queryPart (cleaned front) := by
      rw [queryPart, queryPart, split, List.append_assoc, takeWhile_ne_append noHash,
        takeWhile_ne_append noHash]
      simp
    rw [sameQuery] at named ⊢
    intro same
    obtain ⟨param, member, isNamed⟩ := named
    rw [same] at member
    exact absurd isNamed (by simpa using (List.mem_filter.mp member).2)
  · obtain ⟨before, query, split, noMarkBefore⟩ := List.eq_append_cons_of_mem markKept
    have noHashBefore : '#' ∉ before := fun member =>
      hash (split ▸ List.mem_append_left _ member)
    have noHashQuery : '#' ∉ query := fun member =>
      hash (split ▸ List.mem_append_right _ (List.mem_cons_of_mem _ member))
    rw [split, List.append_assoc, List.cons_append, queryPart_append noMarkBefore noHashBefore,
      queryPart_append noMarkBefore noHashBefore, takeWhile_ne_append noHashQuery,
      List.takeWhile_cons_of_pos (by simpa using noHash)]
    have whole : query.takeWhile (· ≠ '#') = query := takeWhile_ne_of_not_mem noHashQuery
    rw [whole]
    exact formParams_ne_filter literal noSeparator noEquals foreign _

/-- Without a question mark there are no parameters. -/
theorem searchParams_of_not_mem {text : List Char} (absent : '?' ∉ text) : searchParams text = [] := by
  have noQuery : queryPart (cleaned text) = [] := by
    refine queryPart_of_not_mem fun member => absent ?_
    have inCleaned := (List.takeWhile_prefix _).subset member
    exact mem_of_mem_leftCleaned ((List.rdropWhile_prefix _ _).subset inCleaned)
  rw [searchParams, noQuery]
  rfl

/-- Nor are there any where the fragment begins before the first question mark. -/
theorem searchParams_of_hash {front : List Char} (hash : '#' ∈ front) (noMark : '?' ∉ front)
    (back : List Char) : searchParams (front ++ '?' :: back) = [] := by
  have noQuery : queryPart (cleaned (front ++ '?' :: back)) = [] := by
    refine queryPart_of_not_mem ?_
    obtain ⟨blanks, shape, -⟩ := exists_blanks front
    have kept : '#' ∈ leftCleaned front :=
      shape ▸ List.mem_append_left _ (mem_cleaned (by decide) hash)
    obtain ⟨before, after, split, noHash⟩ := List.eq_append_cons_of_mem kept
    rw [cleaned_append front (by decide) back, split, List.append_assoc,
      takeWhile_ne_append noHash]
    intro member
    have inBefore : '?' ∈ before := by simpa using member
    exact noMark (mem_of_mem_leftCleaned (split ▸ List.mem_append_left _ inBefore))
  rw [searchParams, noQuery]
  rfl

/-- Where a visible character of the cleaned text comes from. -/
theorem exists_of_cleaned {text front back : List Char} {c : Char}
    (shape : cleaned text = front ++ c :: back) :
    ∃ before after, text = before ++ c :: after ∧ leftCleaned before = front ∧
      (after = [] → back = []) := by
  obtain ⟨blanks, whole, -⟩ := exists_blanks text
  rw [shape] at whole
  have filtered : (text.filter fun c => ¬isTabOrNewline c) =
      ((text.filter fun c => ¬isTabOrNewline c).takeWhile isBlank ++ front) ++
        c :: (back ++ blanks) := by
    calc (text.filter fun c => ¬isTabOrNewline c)
        = (text.filter fun c => ¬isTabOrNewline c).takeWhile isBlank ++ leftCleaned text :=
          List.takeWhile_append_dropWhile.symm
      _ = _ := by rw [whole]; simp
  obtain ⟨before, rest, rfl, beforeFiltered, restFiltered⟩ := List.filter_eq_append_iff.mp filtered
  obtain ⟨hidden, after, rfl, hiddenOut, kept, afterFiltered⟩ :=
    List.filter_eq_cons_iff.mp restFiltered
  refine ⟨before ++ hidden, after, by simp, ?_, ?_⟩
  · have hiddenFiltered : (hidden.filter fun c => ¬isTabOrNewline c) = [] :=
      List.filter_eq_nil_iff.mpr hiddenOut
    rw [leftCleaned, List.filter_append, hiddenFiltered, List.append_nil, beforeFiltered,
      List.dropWhile_append_of_pos fun other member => List.mem_takeWhile_imp member]
    cases front with
    | nil => rfl
    | cons first front =>
        have stops := List.head?_dropWhile_not isBlank
          ((before ++ (hidden ++ c :: after)).filter fun c => ¬isTabOrNewline c)
        rw [← leftCleaned, whole] at stops
        simpa using stops
  · rintro rfl
    exact (List.append_eq_nil_iff.mp afterFiltered.symm).1

theorem cleaned_dropUnit {text front back : List Char} {c : Char}
    (shape : cleaned text = front ++ c :: back) (visible : ¬isBlank c = true)
    (nonempty : back ≠ []) : ∃ rest, cleaned (dropUnit text) = front ++ c :: rest := by
  obtain ⟨before, after, rfl, rfl, onlyEmpty⟩ := exists_of_cleaned shape
  obtain ⟨after, last, rfl⟩ : ∃ init last, after = init ++ [last] :=
    (List.eq_nil_or_concat' after).resolve_left fun empty => nonempty (onlyEmpty empty)
  obtain ⟨rest, dropped⟩ := dropUnit_concat (before ++ c :: after) last
  have regrouped : before ++ c :: (after ++ [last]) = (before ++ c :: after) ++ [last] := by simp
  rw [regrouped, dropped, List.append_assoc, List.cons_append, cleaned_append before visible]
  exact ⟨_, rfl⟩

/-- A parameter with a value keeps its name when the text loses its last unit. -/
theorem named_of_dropUnit {text name value : List Char} (member : (name, value) ∈ searchParams text)
    (nonempty : value ≠ []) : ∃ param ∈ searchParams (dropUnit text), param.1 = name := by
  obtain ⟨query, back, split, backNonempty, named⟩ := named_of_formParams member nonempty
  obtain ⟨front, whole, noMark, noHash⟩ : ∃ front, cleaned text =
      front ++ '?' :: (queryPart (cleaned text) ++ fragmentPart (cleaned text)) ∧ '?' ∉ front ∧
        '#' ∉ front :=
    exists_of_queryPart (by rw [split]; simp)
  have noHashQuery : '#' ∉ query := by
    intro inside
    have inQuery : '#' ∈ queryPart (cleaned text) := split ▸ List.mem_append_left _ inside
    have inTaken := List.dropWhile_suffix _ |>.subset (List.mem_of_mem_tail inQuery)
    simpa using List.mem_takeWhile_imp inTaken
  rw [split] at whole
  have shape : cleaned text =
      (front ++ '?' :: query) ++ '=' :: (back ++ fragmentPart (cleaned text)) :=
    whole.trans (by simp)
  obtain ⟨rest, cut⟩ := cleaned_dropUnit shape (by decide) (by simp [backNonempty])
  refine Exists.imp (fun param found => ?_) (named (rest.takeWhile (· ≠ '#')))
  rw [searchParams, cut, List.append_assoc, List.cons_append, queryPart_append noMark noHash,
    takeWhile_ne_append noHashQuery, List.takeWhile_cons_of_pos (by decide)]
  exact found

end Js
