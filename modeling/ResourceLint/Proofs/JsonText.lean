import ResourceLint.Json.Printer
import ResourceLint.Json.Reader

/-!
JSON text that is written is read back. The text of a value lexes to its tokens, whatever follows
them, and its tokens hand the value to the container around it. A value is read back from its
indented text as long as it has no more levels than the reader looks into.
-/

namespace ResourceLint.Json

open Data Text

section Strings

def pieceOf (c : Char) : Piece :=
  if c.toNat < 0x20 ∧ c ∉ ['\x08', '\x0c', '\n', '\r', '\t'] then .unit c.toNat else .char c

theorem hexadecimal?_hexChar :
    ∀ n < 0x20, hexadecimal? ['0', '0', hexChar (n / 16), hexChar (n % 16)] = some n := by
  decide

theorem lexString_escapeChar (c : Char) (rest : List Char) :
    lexString (escapeChar c ++ rest) =
      (lexString rest).map fun p => (pieceOf c :: p.1, p.2) := by
  unfold escapeChar
  split
  · simp [lexString, shortEscape?, pieceOf]
  · simp [lexString, shortEscape?, pieceOf]
  · simp [lexString, shortEscape?, pieceOf]
  · simp [lexString, shortEscape?, pieceOf]
  · simp [lexString, shortEscape?, pieceOf]
  · simp [lexString, shortEscape?, pieceOf]
  · simp [lexString, shortEscape?, pieceOf]
  · rename_i hquote hslash hb hf hn hr ht
    by_cases hcontrol : c.toNat < 0x20
    · have hpiece : pieceOf c = .unit c.toNat := by
        rw [pieceOf, if_pos]
        simp_all
      have hhex := hexadecimal?_hexChar c.toNat hcontrol
      simp only [if_pos hcontrol, List.cons_append, List.nil_append, lexString, hhex, hpiece]
    · have hpiece : pieceOf c = .char c := by
        rw [pieceOf, if_neg]
        exact fun h => hcontrol h.1
      rw [if_neg hcontrol, List.singleton_append, hpiece, lexString]
      · rw [if_neg hcontrol]
      all_goals simp_all

theorem lexString_flatMap_escapeChar (cs rest : List Char) :
    lexString (cs.flatMap escapeChar ++ '\x22' :: rest) = some (cs.map pieceOf, rest) := by
  induction cs with
  | nil => simp [lexString]
  | cons c cs ih =>
    rw [List.flatMap_cons, List.append_assoc, lexString_escapeChar, ih]
    rfl

theorem joinPieces_unit {n : Nat} (hhigh : isHighSurrogate n = false)
    (hlow : isLowSurrogate n = false) (pieces : List Piece) :
    joinPieces (.unit n :: pieces) = (joinPieces pieces).map (Char.ofNat n :: ·) := by
  cases pieces with
  | nil => simp [joinPieces, hhigh, hlow]
  | cons piece pieces => cases piece <;> simp [joinPieces, hhigh, hlow]

theorem joinPieces_map_pieceOf (cs : List Char) : joinPieces (cs.map pieceOf) = some cs := by
  induction cs with
  | nil => rfl
  | cons c cs ih =>
    rw [List.map_cons, pieceOf]
    split
    · rename_i hunit
      have hhigh : isHighSurrogate c.toNat = false := by
        simp only [isHighSurrogate, Bool.and_eq_false_iff, decide_eq_false_iff_not]
        omega
      have hlow : isLowSurrogate c.toNat = false := by
        simp only [isLowSurrogate, Bool.and_eq_false_iff, decide_eq_false_iff_not]
        omega
      rw [joinPieces_unit hhigh hlow, ih, Option.map_some, Char.ofNat_toNat]
    · rw [joinPieces, ih]
      rfl

/-- A string is read back, whatever follows it. -/
theorem lexScalar_quote (s : String) (rest : List Char) :
    lexScalar ((quote s).toList ++ rest) = some (.text s, rest) := by
  have hchars : (quote s).toList ++ rest =
      '\x22' :: (s.toList.flatMap escapeChar ++ '\x22' :: rest) := by
    simp [quote, quoteChars]
  rw [hchars, lexScalar, lexString_flatMap_escapeChar, Option.map_some, stringValue,
    joinPieces_map_pieceOf]
  simp

end Strings

section Numbers

def Ends (rest : List Char) : Prop :=
  ∀ c ∈ rest.head?, isDigit c = false ∧ c ≠ '.' ∧ c ≠ 'e' ∧ c ≠ 'E'

theorem isDigit_eq (c : Char) : isDigit c = c.isDigit := by
  rw [Bool.eq_iff_iff]
  simp [isDigit, Char.isDigit, Char.le_def]

theorem decimal_toDigits (n : Nat) : decimal (Nat.toDigits 10 n) = n := by
  have h := Nat.ofDigitChars_ten_toDigits (n := n)
  rw [Nat.ofDigitChars_eq_foldl] at h
  simpa only [decimal, Nat.mul_comm] using h

theorem isDigit_of_mem_toDigits {n : Nat} {c : Char} (h : c ∈ Nat.toDigits 10 n) :
    isDigit c = true :=
  (isDigit_eq c).trans (Nat.isDigit_of_mem_toDigits (by decide) (by decide) h)

theorem takeWhile_digits {ds rest : List Char} (hds : ∀ c ∈ ds, isDigit c = true)
    (hrest : Ends rest) :
    (ds ++ rest).takeWhile isDigit = ds ∧ (ds ++ rest).dropWhile isDigit = rest := by
  induction ds with
  | nil =>
    cases rest with
    | nil => exact ⟨rfl, rfl⟩
    | cons c rest =>
      have hc : isDigit c = false := (hrest c rfl).1
      simp [hc]
  | cons d ds ih =>
    have hd : isDigit d = true := hds d List.mem_cons_self
    have hrest := ih fun c hc => hds c (List.mem_cons_of_mem d hc)
    simp [hd, hrest]

/-- A number is written with a leading digit, which is zero only for zero. -/
theorem exists_toDigits_eq_cons (n : Nat) :
    ∃ d ds, Nat.toDigits 10 n = d :: ds ∧ isDigit d = true ∧ (0 < n → d ≠ '0') := by
  have hdigit : ∀ m < 10, isDigit m.digitChar = true ∧ (0 < m → m.digitChar ≠ '0') := by decide
  induction n using Nat.base_induction 10 (by decide) with
  | single m hm => exact ⟨m.digitChar, [], Nat.toDigits_of_lt_base hm, hdigit m hm⟩
  | digit m k hk hm ih =>
    obtain ⟨d, ds, hds, hd, hne⟩ := ih
    refine ⟨d, ds ++ Nat.toDigits 10 k, ?_, hd, fun _ => hne hm⟩
    rw [← Nat.toDigits_append_toDigits (by decide) hm hk, hds, List.cons_append]

theorem spanSome_toDigits (n : Nat) {rest : List Char} (hrest : Ends rest) :
    spanSome isDigit (Nat.toDigits 10 n ++ rest) = some (Nat.toDigits 10 n, rest) := by
  obtain ⟨d, ds, hds, -, -⟩ := exists_toDigits_eq_cons n
  obtain ⟨htaken, hdropped⟩ := takeWhile_digits
    (fun c (hc : c ∈ Nat.toDigits 10 n) => isDigit_of_mem_toDigits hc) hrest
  rw [spanSome, htaken, hdropped, hds]

theorem lexInteger_toDigits (n : Nat) {rest : List Char} (hrest : Ends rest) :
    lexInteger (Nat.toDigits 10 n ++ rest) = some (Nat.toDigits 10 n, rest) := by
  by_cases hn : n = 0
  · subst hn
    simp [lexInteger]
  · obtain ⟨d, ds, hds, -, hne⟩ := exists_toDigits_eq_cons n
    have hspan := spanSome_toDigits n hrest
    rw [hds, List.cons_append] at hspan ⊢
    rw [lexInteger]
    · exact hspan
    · rintro rest' heq
      exact hne (by omega) (List.cons.inj heq).1

/-- A number is read back, unless what follows it goes on with it. -/
theorem lexNumber_repr (n : Nat) {rest : List Char} (hrest : Ends rest) :
    lexNumber ((Nat.repr n).toList ++ rest) = some (.natural n, rest) := by
  have hminus : lexMinus (Nat.toDigits 10 n ++ rest) = ([], Nat.toDigits 10 n ++ rest) := by
    obtain ⟨d, ds, hds, hd, -⟩ := exists_toDigits_eq_cons n
    rw [hds, List.cons_append, lexMinus]
    rintro rest' heq
    rw [(List.cons.inj heq).1] at hd
    exact absurd hd (by decide)
  have hfraction : lexFraction rest = some ([], rest) := by
    rw [lexFraction]
    rintro rest' rfl
    exact (hrest '.' rfl).2.1 rfl
  have hexponent : lexExponent rest = some ([], rest) := by
    cases rest with
    | nil => rfl
    | cons c rest =>
      obtain ⟨-, -, he, hE⟩ := hrest c rfl
      rw [lexExponent, if_neg (by simp [he, hE])]
  rw [Nat.toList_repr, lexNumber]
  simp only [hminus, lexInteger_toDigits n hrest, hfraction, hexponent, Option.bind_eq_bind,
    Option.bind_some, numberValue, decimal_toDigits]
  rfl

/-- Where no string and no literal starts, a number may start. -/
theorem lexScalar_eq_lexNumber {c : Char} (hc : c ∉ ['\x22', 'n', 't', 'f']) (cs : List Char) :
    lexScalar (c :: cs) = lexNumber (c :: cs) := by
  rw [lexScalar]
  all_goals
    rintro rest heq
    exact hc (by simp [(List.cons.inj heq).1])

theorem lexScalar_repr (n : Nat) {rest : List Char} (hrest : Ends rest) :
    lexScalar ((Nat.repr n).toList ++ rest) = some (.natural n, rest) := by
  obtain ⟨d, ds, hds, hd, -⟩ := exists_toDigits_eq_cons n
  have hother : d ∉ ['\x22', 'n', 't', 'f'] := by
    intro hmem
    simp only [List.mem_cons, List.not_mem_nil, or_false] at hmem
    rcases hmem with rfl | rfl | rfl | rfl <;> exact absurd hd (by decide)
  rw [← lexNumber_repr n hrest, Nat.toList_repr, hds, List.cons_append,
    lexScalar_eq_lexNumber hother]

def startsScalar (c : Char) : Bool := isDigit c || c ∈ ['\x22', 'n', 't', 'f', '-']

theorem lexScalar_eq_none {c : Char} (h : startsScalar c = false) (cs : List Char) :
    lexScalar (c :: cs) = none := by
  obtain ⟨hdigit, hc⟩ := Bool.or_eq_false_iff.1 h
  rw [decide_eq_false_iff_not] at hc
  have hminus : lexMinus (c :: cs) = ([], c :: cs) := by
    rw [lexMinus]
    rintro rest heq
    exact hc (by simp [(List.cons.inj heq).1])
  have hinteger : lexInteger (c :: cs) = none := by
    rw [lexInteger]
    · simp [spanSome, hdigit]
    · rintro rest heq
      rw [(List.cons.inj heq).1] at hdigit
      exact absurd hdigit (by decide)
  rw [lexScalar_eq_lexNumber (fun hmem => hc (List.mem_append_left ['-'] hmem)), lexNumber, hminus,
    hinteger]
  rfl

end Numbers

section Lexing

theorem startsScalar_of_isSpace {c : Char} (h : isSpace c = true) : startsScalar c = false := by
  simp only [isSpace, Bool.or_eq_true, decide_eq_true_eq] at h
  rcases h with ((rfl | rfl) | rfl) | rfl <;> decide

theorem startsScalar_of_punctuation? {c : Char} {t : Token} (h : punctuation? c = some t) :
    startsScalar c = false ∧ isSpace c = false := by
  unfold punctuation? at h
  split at h
  case h_7 => cases h
  all_goals decide

theorem lex_space {c : Char} (h : isSpace c = true) (rest : List Char) :
    lex (c :: rest) = lex rest := by
  rw [lex, if_pos h]

theorem lex_blanks (n : Nat) (rest : List Char) :
    lex (List.replicate n ' ' ++ rest) = lex rest := by
  induction n with
  | zero => rfl
  | succ n ih => rw [List.replicate_succ, List.cons_append, lex_space rfl, ih]

theorem lex_punctuation {c : Char} {t : Token} (h : punctuation? c = some t) (rest : List Char) :
    lex (c :: rest) = (lex rest).map (t :: ·) := by
  rw [lex, if_neg (by simp [startsScalar_of_punctuation? h]), h]

theorem lex_scalar {cs rest : List Char} {v : Value} (h : lexScalar cs = some (v, rest)) :
    lex cs = (lex rest).map (.scalar v :: ·) := by
  cases cs with
  | nil => cases h
  | cons c cs =>
    have hstarts : startsScalar c ≠ false := by
      intro hnot
      rw [lexScalar_eq_none hnot] at h
      cases h
    have hspace : ¬ isSpace c = true := fun hc => hstarts (startsScalar_of_isSpace hc)
    have hpunctuation : punctuation? c = none := by
      cases hp : punctuation? c with
      | none => rfl
      | some t => exact absurd (startsScalar_of_punctuation? hp).1 hstarts
    rw [lex, if_neg hspace, hpunctuation]
    simp only
    split
    · rename_i hnone
      rw [h] at hnone
      cases hnone
    · rename_i heq
      rw [h] at heq
      cases heq
      rfl

/-- A text with a character that starts no token is not lexed. -/
theorem lex_eq_none {c : Char} (hspace : isSpace c = false) (hpunctuation : punctuation? c = none)
    (hscalar : startsScalar c = false) (cs : List Char) : lex (c :: cs) = none := by
  rw [lex, if_neg (by simp [hspace]), hpunctuation]
  simp only
  split
  · rfl
  · rename_i heq
    rw [lexScalar_eq_none hscalar] at heq
    cases heq

end Lexing

section Values

mutual

def tokens : Value → List Token
  | .list [] => [.openArray, .closeArray]
  | .list (v :: vs) => .openArray :: (tokens v ++ (itemTokens vs ++ [.closeArray]))
  | .record [] => [.openObject, .closeObject]
  | .record ((k, v) :: es) =>
    .openObject :: .scalar (.text k) :: .colon :: (tokens v ++ (entryTokens es ++ [.closeObject]))
  | v => [.scalar v]

def itemTokens : List Value → List Token
  | [] => []
  | v :: vs => .comma :: (tokens v ++ itemTokens vs)

def entryTokens : List (String × Value) → List Token
  | [] => []
  | (k, v) :: es => .comma :: .scalar (.text k) :: .colon :: (tokens v ++ entryTokens es)

end

mutual

/-- A value is of kinds that are written, and its lists and records nest no deeper than there is
room. -/
def Fits (room : Nat) : Value → Prop
  | .numeral _ => False
  | .unreadable => False
  | .list vs => 0 < room ∧ FitsAll (room - 1) vs
  | .record es => 0 < room ∧ FitsEach (room - 1) es
  | _ => True

def FitsAll (room : Nat) : List Value → Prop
  | [] => True
  | v :: vs => Fits room v ∧ FitsAll room vs

def FitsEach (room : Nat) : List (String × Value) → Prop
  | [] => True
  | (_, v) :: es => Fits room v ∧ FitsEach room es

end

theorem ends_newline (rest : List Char) : Ends ('\n' :: rest) := by
  intro c hc
  cases hc
  decide

theorem ends_comma (rest : List Char) : Ends (',' :: rest) := by
  intro c hc
  cases hc
  decide

theorem ends_prettyItems (level : Nat) (vs : List Value) {rest : List Char} (h : Ends rest) :
    Ends ((prettyItems level vs).toList ++ rest) := by
  cases vs with
  | nil => simpa [prettyItems] using h
  | cons v vs => simpa [prettyItems] using ends_comma _

theorem ends_prettyEntries (level : Nat) (es : List (String × Value)) {rest : List Char}
    (h : Ends rest) : Ends ((prettyEntries level es).toList ++ rest) := by
  cases es with
  | nil => simpa [prettyEntries] using h
  | cons e es => simpa [prettyEntries] using ends_comma _

/-- A word is read back, whatever follows it. -/
theorem lexScalar_scalarText {room : Nat} {v : Value} (h : Fits room v)
    (hlist : ∀ vs, v ≠ .list vs) (hrecord : ∀ es, v ≠ .record es) {rest : List Char}
    (hrest : Ends rest) : lexScalar ((scalarText v).toList ++ rest) = some (v, rest) := by
  cases v with
  | null => simp [scalarText, lexScalar, dropWord, dropChar]
  | bool b => cases b <;> simp [scalarText, lexScalar, dropWord, dropChar]
  | natural n => exact lexScalar_repr n hrest
  | numeral t => simp [Fits] at h
  | text t => exact lexScalar_quote t rest
  | list vs => exact absurd rfl (hlist vs)
  | record es => exact absurd rfl (hrecord es)
  | unreadable => simp [Fits] at h

theorem lex_pretty_of_scalar (level : Nat) {room : Nat} {v : Value} (h : Fits room v)
    (hlist : ∀ vs, v ≠ .list vs) (hrecord : ∀ es, v ≠ .record es) {rest : List Char}
    (hrest : Ends rest) :
    lex ((pretty level v).toList ++ rest) = (lex rest).map (tokens v ++ ·) := by
  have hpretty : pretty level v = scalarText v := by
    cases v with
    | list vs => exact absurd rfl (hlist vs)
    | record es => exact absurd rfl (hrecord es)
    | _ => simp [pretty]
  have htokens : tokens v = [.scalar v] := by
    cases v with
    | list vs => exact absurd rfl (hlist vs)
    | record es => exact absurd rfl (hrecord es)
    | _ => simp [tokens]
  rw [hpretty, htokens, lex_scalar (lexScalar_scalarText h hlist hrecord hrest)]
  rfl

mutual

/-- The text of a value lexes to its tokens and those of what follows. -/
theorem lex_pretty (level room : Nat) (v : Value) (h : Fits room v) (rest : List Char)
    (hrest : Ends rest) :
    lex ((pretty level v).toList ++ rest) = (lex rest).map (tokens v ++ ·) := by
  match v, h with
  | .null, h => exact lex_pretty_of_scalar level h (by simp) (by simp) hrest
  | .bool _, h => exact lex_pretty_of_scalar level h (by simp) (by simp) hrest
  | .natural _, h => exact lex_pretty_of_scalar level h (by simp) (by simp) hrest
  | .numeral _, h => exact lex_pretty_of_scalar level h (by simp) (by simp) hrest
  | .text _, h => exact lex_pretty_of_scalar level h (by simp) (by simp) hrest
  | .unreadable, h => exact lex_pretty_of_scalar level h (by simp) (by simp) hrest
  | .list [], _ =>
    have hchars : (pretty level (.list [])).toList ++ rest = '[' :: ']' :: rest := by simp [pretty]
    rw [hchars, lex_punctuation rfl, lex_punctuation rfl, Option.map_map]
    simp [tokens, Function.comp_def]
  | .list (v :: vs), h =>
    have hchars : (pretty level (.list (v :: vs))).toList ++ rest =
        '[' :: '\n' :: (List.replicate (2 * (level + 1)) ' ' ++ ((pretty (level + 1) v).toList ++
          ((prettyItems (level + 1) vs).toList ++
            '\n' :: (List.replicate (2 * level) ' ' ++ ']' :: rest)))) := by
      simp [pretty, indent]
    simp only [Fits, FitsAll] at h
    rw [hchars, lex_punctuation rfl, lex_space rfl, lex_blanks,
      lex_pretty (level + 1) (room - 1) v h.2.1 _ (ends_prettyItems _ vs (ends_newline _)),
      lex_prettyItems (level + 1) (room - 1) vs h.2.2 _ (ends_newline _), lex_space rfl, lex_blanks,
      lex_punctuation rfl]
    simp [tokens, Option.map_map, Function.comp_def]
  | .record [], _ =>
    have hchars : (pretty level (.record [])).toList ++ rest = '\x7b' :: '\x7d' :: rest := by
      simp [pretty]
    rw [hchars, lex_punctuation rfl, lex_punctuation rfl, Option.map_map]
    simp [tokens, Function.comp_def]
  | .record ((k, v) :: es), h =>
    have hchars : (pretty level (.record ((k, v) :: es))).toList ++ rest =
        '\x7b' :: '\n' :: (List.replicate (2 * (level + 1)) ' ' ++ ((quote k).toList ++
          ':' :: ' ' :: ((pretty (level + 1) v).toList ++ ((prettyEntries (level + 1) es).toList ++
            '\n' :: (List.replicate (2 * level) ' ' ++ '\x7d' :: rest))))) := by
      simp [pretty, indent]
    simp only [Fits, FitsEach] at h
    rw [hchars, lex_punctuation rfl, lex_space rfl, lex_blanks, lex_scalar (lexScalar_quote k _),
      lex_punctuation rfl, lex_space rfl,
      lex_pretty (level + 1) (room - 1) v h.2.1 _ (ends_prettyEntries _ es (ends_newline _)),
      lex_prettyEntries (level + 1) (room - 1) es h.2.2 _ (ends_newline _), lex_space rfl,
      lex_blanks, lex_punctuation rfl]
    simp [tokens, Option.map_map, Function.comp_def]

theorem lex_prettyItems (level room : Nat) (vs : List Value) (h : FitsAll room vs)
    (rest : List Char) (hrest : Ends rest) :
    lex ((prettyItems level vs).toList ++ rest) = (lex rest).map (itemTokens vs ++ ·) := by
  match vs, h with
  | [], _ => simp [prettyItems, itemTokens]
  | v :: vs, h =>
    have hchars : (prettyItems level (v :: vs)).toList ++ rest =
        ',' :: '\n' :: (List.replicate (2 * level) ' ' ++ ((pretty level v).toList ++
          ((prettyItems level vs).toList ++ rest))) := by
      simp [prettyItems, indent]
    simp only [FitsAll] at h
    rw [hchars, lex_punctuation rfl, lex_space rfl, lex_blanks,
      lex_pretty level room v h.1 _ (ends_prettyItems level vs hrest),
      lex_prettyItems level room vs h.2 rest hrest]
    simp [itemTokens, Option.map_map, Function.comp_def]

theorem lex_prettyEntries (level room : Nat) (es : List (String × Value)) (h : FitsEach room es)
    (rest : List Char) (hrest : Ends rest) :
    lex ((prettyEntries level es).toList ++ rest) = (lex rest).map (entryTokens es ++ ·) := by
  match es, h with
  | [], _ => simp [prettyEntries, entryTokens]
  | (k, v) :: es, h =>
    have hchars : (prettyEntries level ((k, v) :: es)).toList ++ rest =
        ',' :: '\n' :: (List.replicate (2 * level) ' ' ++ ((quote k).toList ++
          ':' :: ' ' :: ((pretty level v).toList ++
            ((prettyEntries level es).toList ++ rest)))) := by
      simp [prettyEntries, indent]
    simp only [FitsEach] at h
    rw [hchars, lex_punctuation rfl, lex_space rfl, lex_blanks, lex_scalar (lexScalar_quote k _),
      lex_punctuation rfl, lex_space rfl,
      lex_pretty level room v h.1 _ (ends_prettyEntries level es hrest),
      lex_prettyEntries level room es h.2 rest hrest]
    simp [entryTokens, Option.map_map, Function.comp_def]

end

end Values

section Reading

variable (limit : Nat)

def follow (ts : List Token) (r : Reading) : Option Reading := ts.foldlM (step limit) r

variable {limit}

theorem follow_cons (t : Token) (ts : List Token) (r : Reading) :
    follow limit (t :: ts) r = (step limit r t).bind (follow limit ts) := by
  rw [follow, List.foldlM_cons]
  rfl

def heldEntry (e : String × Value) : Option String × Value := (some e.1, e.2)

theorem recordOf_heldEntry (es : List (String × Value)) :
    recordOf (es.map heldEntry).reverse = .record es := by
  have hall : (es.map heldEntry).mapM (fun e => e.1.map fun name => (name, e.2)) = some es := by
    induction es with
    | nil => rfl
    | cons e es ih =>
      rw [List.map_cons, List.mapM_cons, ih]
      rfl
  rw [recordOf, List.reverse_reverse, hall]

theorem deliver_items (v : Value) (done : List Value) (outer : List Frame) :
    deliver v (.items done :: outer) =
      some (.underway (.items (v :: done) :: outer) .commaOrClose) := rfl

theorem deliver_entry (k : String) (v : Value) (done : List (Option String × Value))
    (outer : List Frame) :
    deliver v (.entry done (some k) :: outer) =
      some (.underway (.entries (heldEntry (k, v) :: done) :: outer) .commaOrClose) := rfl

def Expected.Opens (e : Expected) : Prop := e = .value ∨ e = .valueOrClose

theorem follow_openArray {e : Expected} (he : e.Opens) (frames : List Frame) (ts : List Token) :
    follow limit (.openArray :: ts) (.underway frames e) =
      follow limit ts (.underway (.items [] :: frames) .valueOrClose) := by
  rw [follow_cons]
  rcases he with rfl | rfl <;> rfl

theorem follow_openObject {e : Expected} (he : e.Opens) (frames : List Frame) (ts : List Token) :
    follow limit (.openObject :: ts) (.underway frames e) =
      follow limit ts (.underway (.entries [] :: frames) .nameOrClose) := by
  rw [follow_cons]
  rcases he with rfl | rfl <;> rfl

/-- A name and a colon open an entry, be it the first or a later one. -/
theorem follow_name {e : Expected} (he : e = .name ∨ e = .nameOrClose) (k : String)
    (done : List (Option String × Value)) (frames : List Frame) (ts : List Token) :
    follow limit (.scalar (.text k) :: .colon :: ts) (.underway (.entries done :: frames) e) =
      follow limit ts (.underway (.entry done (some k) :: frames) .value) := by
  rw [follow_cons]
  rcases he with rfl | rfl <;> exact follow_cons .colon ts _

theorem follow_closeArray {vs done : List Value} (hdone : done.reverse = vs) {e : Expected}
    (he : e = .valueOrClose ∨ e = .commaOrClose) {frames : List Frame}
    (hdepth : frames.length < limit) (ts : List Token) :
    follow limit (.closeArray :: ts) (.underway (.items done :: frames) e) =
      (deliver (.list vs) frames).bind (follow limit ts) := by
  have hclose : closeArray limit (.items done :: frames) = deliver (.list vs) frames := by
    rw [closeArray, sealed, if_pos hdepth, hdone]
  rw [follow_cons, ← hclose]
  rcases he with rfl | rfl <;> rfl

theorem follow_closeObject {es : List (String × Value)} {done : List (Option String × Value)}
    (hdone : done = (es.map heldEntry).reverse) {e : Expected}
    (he : e = .nameOrClose ∨ e = .commaOrClose) {frames : List Frame}
    (hdepth : frames.length < limit) (ts : List Token) :
    follow limit (.closeObject :: ts) (.underway (.entries done :: frames) e) =
      (deliver (.record es) frames).bind (follow limit ts) := by
  have hclose : closeObject limit (.entries done :: frames) = deliver (.record es) frames := by
    rw [closeObject, sealed, if_pos hdepth, hdone, recordOf_heldEntry]
  rw [follow_cons, ← hclose]
  rcases he with rfl | rfl <;> rfl

theorem follow_scalar {v : Value} (htokens : tokens v = [.scalar v]) (frames : List Frame)
    {e : Expected} (he : e.Opens) (ts : List Token) :
    follow limit (tokens v ++ ts) (.underway frames e) =
      (deliver v frames).bind (follow limit ts) := by
  rw [htokens, List.singleton_append, follow_cons]
  rcases he with rfl | rfl <;> rfl

mutual

/-- The tokens of a value hand it to the container around it. -/
theorem follow_tokens (v : Value) (frames : List Frame) (h : Fits (limit - frames.length) v)
    (e : Expected) (he : e.Opens) (ts : List Token) :
    follow limit (tokens v ++ ts) (.underway frames e) =
      (deliver v frames).bind (follow limit ts) := by
  match v, h with
  | .null, _ => exact follow_scalar (by simp [tokens]) frames he ts
  | .bool _, _ => exact follow_scalar (by simp [tokens]) frames he ts
  | .natural _, _ => exact follow_scalar (by simp [tokens]) frames he ts
  | .numeral _, _ => exact follow_scalar (by simp [tokens]) frames he ts
  | .text _, _ => exact follow_scalar (by simp [tokens]) frames he ts
  | .unreadable, _ => exact follow_scalar (by simp [tokens]) frames he ts
  | .list [], h =>
    simp only [Fits] at h
    rw [tokens, List.cons_append, List.cons_append, List.nil_append, follow_openArray he,
      follow_closeArray List.reverse_nil (Or.inl rfl) (by omega)]
  | .list (v :: vs), h =>
    simp only [Fits, FitsAll] at h
    have hfirst := follow_tokens v (.items [] :: frames) (by simpa [Nat.sub_sub] using h.2.1)
      .valueOrClose (Or.inr rfl) (itemTokens vs ++ .closeArray :: ts)
    have hrest := follow_itemTokens vs [v] frames (by simpa [Nat.sub_sub] using h.2.2)
      (.closeArray :: ts)
    have hdone : (vs.reverse ++ [v]).reverse = v :: vs := by simp
    simp only [tokens, List.cons_append, List.append_assoc, List.nil_append]
    rw [follow_openArray he, hfirst, deliver_items, Option.bind_some, hrest,
      follow_closeArray hdone (Or.inr rfl) (by omega)]
  | .record [], h =>
    simp only [Fits] at h
    have hdone : ([] : List (Option String × Value)) = ([].map heldEntry).reverse := rfl
    rw [tokens, List.cons_append, List.cons_append, List.nil_append, follow_openObject he,
      follow_closeObject hdone (Or.inl rfl) (by omega)]
  | .record ((k, v) :: es), h =>
    simp only [Fits, FitsEach] at h
    have hfirst := follow_tokens v (.entry [] (some k) :: frames)
      (by simpa [Nat.sub_sub] using h.2.1) .value (Or.inl rfl)
      (entryTokens es ++ .closeObject :: ts)
    have hrest := follow_entryTokens es [heldEntry (k, v)] frames
      (by simpa [Nat.sub_sub] using h.2.2) (.closeObject :: ts)
    have hdone : (es.map heldEntry).reverse ++ [heldEntry (k, v)] =
        (((k, v) :: es).map heldEntry).reverse := by simp
    simp only [tokens, List.cons_append, List.append_assoc, List.nil_append]
    rw [follow_openObject he, follow_name (Or.inr rfl), hfirst, deliver_entry, Option.bind_some,
      hrest, follow_closeObject hdone (Or.inr rfl) (by omega)]

theorem follow_itemTokens (vs done : List Value) (frames : List Frame)
    (h : FitsAll (limit - (frames.length + 1)) vs) (ts : List Token) :
    follow limit (itemTokens vs ++ ts) (.underway (.items done :: frames) .commaOrClose) =
      follow limit ts (.underway (.items (vs.reverse ++ done) :: frames) .commaOrClose) := by
  match vs, h with
  | [], _ => simp [itemTokens]
  | v :: vs, h =>
    simp only [FitsAll] at h
    have hcomma : step limit (.underway (.items done :: frames) .commaOrClose) .comma =
        some (.underway (.items done :: frames) .value) := rfl
    have hfirst := follow_tokens v (.items done :: frames) h.1 .value (Or.inl rfl)
      (itemTokens vs ++ ts)
    have hrest := follow_itemTokens vs (v :: done) frames h.2 ts
    simp only [itemTokens, List.cons_append, List.append_assoc]
    rw [follow_cons, hcomma, Option.bind_some, hfirst, deliver_items, Option.bind_some, hrest]
    simp

theorem follow_entryTokens (es : List (String × Value)) (done : List (Option String × Value))
    (frames : List Frame) (h : FitsEach (limit - (frames.length + 1)) es) (ts : List Token) :
    follow limit (entryTokens es ++ ts) (.underway (.entries done :: frames) .commaOrClose) =
      follow limit ts
        (.underway (.entries ((es.map heldEntry).reverse ++ done) :: frames) .commaOrClose) := by
  match es, h with
  | [], _ => simp [entryTokens]
  | (k, v) :: es, h =>
    simp only [FitsEach] at h
    have hcomma : step limit (.underway (.entries done :: frames) .commaOrClose) .comma =
        some (.underway (.entries done :: frames) .name) := rfl
    have hfirst := follow_tokens v (.entry done (some k) :: frames) h.1 .value (Or.inl rfl)
      (entryTokens es ++ ts)
    have hrest := follow_entryTokens es (heldEntry (k, v) :: done) frames h.2 ts
    simp only [entryTokens, List.cons_append, List.append_assoc]
    rw [follow_cons, hcomma, Option.bind_some, follow_name (Or.inl rfl), hfirst, deliver_entry,
      Option.bind_some, hrest]
    simp

end

/-- A value is read back from its indented text. -/
theorem parse_pretty {v : Value} (h : Fits limit v) :
    parse limit (pretty 0 v ++ "\n") = some v := by
  have hlex : lex (pretty 0 v ++ "\n").toList = some (tokens v) := by
    have hnewline : "\n".toList = ['\n'] := rfl
    rw [String.toList_append, hnewline, lex_pretty 0 limit v h _ (ends_newline [])]
    simp [lex_space, isSpace, lex]
  have hread := follow_tokens v [] (by simpa using h) .value (Or.inl rfl) []
  rw [List.append_nil, follow] at hread
  rw [parse, hlex, Option.bind_some, hread]
  rfl

end Reading

end ResourceLint.Json
