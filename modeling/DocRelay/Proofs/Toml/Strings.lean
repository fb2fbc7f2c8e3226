import DocRelay.Toml.Print
import DocRelay.Toml.Strings

namespace DocRelay.Toml

/-!
# Reading written strings and keys

A string is written in one of four kinds of quotes.  In each kind its characters stand as they are
or as escapes, and up to two quotes may stand together in three; whichever kind is taken, the
string is read back.

* `readEscape_escape?` — an escape stands for the character;
* `readBasic_escapeAll`, `readLiteral_append` — strings in one quote;
* `Body`, `readLong_body` — strings in three quotes;
* `readString_quoteText`, `readKeyPart_quoteKey` — written strings and keys.
-/

/-! ### Escapes -/

/-- The digits of a control character. -/
theorem digitsIn_code : ∀ n < 0x80,
    digitsIn 16 ['0', '0', Nat.digitChar (n / 16), (Nat.digitChar (n % 16)).toUpper] = some n := by
  decide

/-- The code points of control characters. -/
theorem toNat_of_isControl {c : Char} (h : isControl c = true) : c.toNat < 0x80 := by
  rw [isControl, Bool.or_eq_true, Bool.and_eq_true, decide_eq_true_eq, beq_iff_eq] at h
  omega

/-- A control character is read from its code point. -/
theorem readCodePoint_code {n : Nat} (h : n < 0x80) (rest : List Char) :
    readCodePoint 4 ('0' :: '0' :: Nat.digitChar (n / 16) :: (Nat.digitChar (n % 16)).toUpper
      :: rest) = some (Char.ofNat n, rest) := by
  have hsmall : (decide (n < 0xD800) || (decide (0xDFFF < n) && decide (n < 0x110000))) = true := by
    rw [decide_eq_true (show n < 0xD800 by omega)]
    rfl
  rw [readCodePoint]
  simp only [List.take_succ_cons, List.take_zero]
  rw [digitsIn_code n h]
  simp only [Option.bind_eq_bind, Option.bind_some, hsmall, if_true]
  rfl

/-- An escape is a backslash with something else than a blank or a line end behind it, which is
    read as the character. -/
theorem readEscape_escape? {c : Char} {e : List Char} (h : escape? c = some e) :
    ∃ d more, e = '\\' :: d :: more ∧ d ≠ '\n' ∧ d ≠ '\r' ∧ isSpace d = false ∧
      ∀ rest, readEscape (d :: (more ++ rest)) = some (c, rest) := by
  -- All escapes but the code points are one character behind the backslash.
  have hnamed : ∀ {d : Char}, some ['\\', d] = some e →
      (d ≠ '\n' ∧ d ≠ '\r' ∧ isSpace d = false) →
      (∀ rest, readEscape (d :: rest) = some (c, rest)) →
      ∃ d more, e = '\\' :: d :: more ∧ d ≠ '\n' ∧ d ≠ '\r' ∧ isSpace d = false ∧
        ∀ rest, readEscape (d :: (more ++ rest)) = some (c, rest) := by
    intro d he ⟨hnewline, hreturn, hspace⟩ hread
    exact ⟨d, [], (Option.some.inj he).symm, hnewline, hreturn, hspace, hread⟩
  have hcode : ∀ {n : Nat}, (c.toNat == n) = true → c = Char.ofNat n := by
    intro n hn
    rw [← beq_iff_eq.mp hn, Char.ofNat_toNat]
  rw [escape?] at h
  split at h
  next hc => exact hnamed h (by decide) fun rest => by rw [beq_iff_eq.mp hc]; rfl
  split at h
  next hc => exact hnamed h (by decide) fun rest => by rw [beq_iff_eq.mp hc]; rfl
  split at h
  next hc => exact hnamed h (by decide) fun rest => by rw [beq_iff_eq.mp hc]; rfl
  split at h
  next hc => exact hnamed h (by decide) fun rest => by rw [hcode hc]; rfl
  split at h
  next hc => exact hnamed h (by decide) fun rest => by rw [hcode hc]; rfl
  split at h
  next hc => exact hnamed h (by decide) fun rest => by rw [beq_iff_eq.mp hc]; rfl
  split at h
  next hc =>
    refine ⟨'u', _, (Option.some.inj h).symm, by decide, by decide, by decide, fun rest => ?_⟩
    have hread := readCodePoint_code (toNat_of_isControl hc) rest
    rw [Char.ofNat_toNat] at hread
    exact hread
  cases h

/-- A character without an escape is no control character and no backslash. -/
theorem of_escape?_eq_none {c : Char} (h : escape? c = none) : isControl c = false ∧ c ≠ '\\' := by
  grind [escape?]

theorem readBasic_escape {fuel : Nat} {cs after others rest : List Char} {c : Char}
    (hescape : readEscape cs = some (c, after))
    (hothers : readBasic fuel after = some (others, rest)) :
    readBasic (fuel + 1) ('\\' :: cs) = some (c :: others, rest) := by
  simp only [readBasic, hescape, hothers, Option.bind_eq_bind, Option.bind_some]
  rfl

theorem readBasic_plain {fuel : Nat} {cs others rest : List Char} {c : Char}
    (hcontrol : isControl c = false) (hbackslash : c ≠ '\\') (hquote : c ≠ '"')
    (hothers : readBasic fuel cs = some (others, rest)) :
    readBasic (fuel + 1) (c :: cs) = some (c :: others, rest) := by
  rw [readBasic]
  · simp only [hcontrol, hothers, Bool.false_eq_true, if_false, Option.bind_eq_bind,
      Option.bind_some]
    rfl
  · exact hquote
  · exact hbackslash

/-- **A string in one double quote** is read up to its closing quote. -/
theorem readBasic_escapeAll {cs rest : List Char} {fuel : Nat} (hfuel : cs.length < fuel) :
    readBasic fuel (escapeAll false 0 0 cs ++ '"' :: rest) = some (cs, rest) := by
  induction cs generalizing fuel with
  | nil =>
    obtain ⟨fuel, rfl⟩ := Nat.exists_eq_add_of_lt hfuel
    rfl
  | cons c others ih =>
    obtain ⟨fuel, rfl⟩ : ∃ more, fuel = more + 1 := Nat.exists_eq_succ_of_ne_zero (by omega)
    have hrest := @ih fuel (Nat.lt_of_succ_lt_succ hfuel)
    rw [escapeAll]
    split
    · rename_i hc
      obtain rfl := beq_iff_eq.mp hc
      rw [if_neg (Nat.lt_irrefl 0)]
      exact readBasic_escape rfl hrest
    · rename_i hc
      have hc : c ≠ '"' := by simpa using hc
      simp only [Bool.false_and, Bool.false_eq_true, if_false]
      cases hescape : escape? c with
      | none =>
        obtain ⟨hcontrol, hbackslash⟩ := of_escape?_eq_none hescape
        exact readBasic_plain hcontrol hbackslash hc hrest
      | some e =>
        obtain ⟨d, more, rfl, -, -, -, hread⟩ := readEscape_escape? hescape
        rw [List.append_assoc]
        exact readBasic_escape (hread _) hrest

/-- **A string in one single quote** is read up to its closing quote. -/
theorem readLiteral_append {cs rest : List Char}
    (h : ∀ c ∈ cs, c ≠ '\'' ∧ isControl c = false) :
    readLiteral (cs ++ '\'' :: rest) = some (cs, rest) := by
  induction cs with
  | nil => rfl
  | cons c others ih =>
    obtain ⟨hquote, hcontrol⟩ := h c List.mem_cons_self
    rw [List.cons_append, readLiteral, if_neg (by simp [hcontrol]),
      ih fun d hd => h d (List.mem_cons_of_mem _ hd)]
    · rfl
    · exact hquote

/-! ### Strings in three quotes -/

/-- What stands for characters in three quotes: fewer than three quotes in a row, of which `run`
    stand before, and other characters or escapes, of which each is read as one character. -/
inductive Body (quote : Char) (escapes : Bool) : Nat → List Char → List Char → Prop where
  | nil {run : Nat} : run ≤ 2 → Body quote escapes run [] []
  | quote {run : Nat} {body cs : List Char} : Body quote escapes (run + 1) body cs →
      Body quote escapes run (quote :: body) (quote :: cs)
  | glyph {run : Nat} (first : Char) (others : List Char) {body cs : List Char} {c : Char} :
      run ≤ 2 → first ≠ quote →
      (∀ {fuel : Nat} {after text rest : List Char},
        readLong quote escapes fuel after = some (text, rest) →
        readLong quote escapes (fuel + 1) (first :: (others ++ after)) = some (c :: text, rest)) →
      Body quote escapes 0 body cs →
      Body quote escapes run (first :: (others ++ body)) (c :: cs)

/-- Quotes are counted up to something else. -/
theorem quoteRun_replicate (quote : Char) (run : Nat) {rest : List Char}
    (h : ∀ c ∈ rest.head?, c ≠ quote) :
    quoteRun quote (List.replicate run quote ++ rest) = run := by
  rw [quoteRun, List.takeWhile_append_of_pos]
  · cases rest with
    | nil => simp
    | cons c others =>
      have hc := h c rfl
      simp [hc]
  · intro c hc
    rw [(List.mem_replicate.mp hc).2]
    exact beq_self_eq_true quote

/-- One or two quotes are taken together. -/
theorem readLong_run {quote : Char} {escapes : Bool} {fuel run : Nat} {rest text after : List Char}
    (hpos : 0 < run) (hrun : run ≤ 2) (hrest : ∀ c ∈ rest.head?, c ≠ quote)
    (h : readLong quote escapes fuel rest = some (text, after)) :
    readLong quote escapes (fuel + 1) (List.replicate run quote ++ rest)
      = some (List.replicate run quote ++ text, after) := by
  have hcount := quoteRun_replicate quote run hrest
  have hdrop : (List.replicate run quote ++ rest).drop run = rest := by
    rw [List.drop_append_of_le_length (by simp), List.drop_eq_nil_of_le (by simp),
      List.nil_append]
  obtain ⟨k, rfl⟩ : ∃ k, run = k + 1 := Nat.exists_eq_succ_of_ne_zero (Nat.ne_of_gt hpos)
  rw [List.replicate_succ, List.cons_append] at hcount hdrop ⊢
  rw [readLong, if_pos (beq_self_eq_true quote), hcount]
  dsimp only
  rw [hdrop, if_pos (by omega), h]
  rfl

/-- **What stands for characters is read as these** up to the closing quotes, which are the last
    three of their run. -/
theorem readLong_body {quote : Char} {escapes : Bool} {run : Nat} {body cs rest : List Char}
    (h : Body quote escapes run body cs) (hrest : ∀ c ∈ rest.head?, c ≠ quote) {fuel : Nat}
    (hfuel : body.length + run < fuel) :
    readLong quote escapes fuel
        (List.replicate run quote ++ (body ++ (quote :: quote :: quote :: rest)))
      = some (List.replicate run quote ++ cs, rest) := by
  induction h generalizing fuel with
  | @nil run hrun =>
    obtain ⟨fuel, rfl⟩ : ∃ more, fuel = more + 1 := Nat.exists_eq_succ_of_ne_zero (by omega)
    have hquotes : List.replicate run quote ++ (quote :: quote :: quote :: rest)
        = List.replicate (run + 3) quote ++ rest := by
      rw [← List.replicate_append_replicate, List.append_assoc]
      rfl
    have hcount := quoteRun_replicate quote (run + 3) hrest
    have hdrop : (List.replicate (run + 3) quote ++ rest).drop (run + 3) = rest := by
      rw [List.drop_append_of_le_length (by simp), List.drop_eq_nil_of_le (by simp),
        List.nil_append]
    rw [List.nil_append, hquotes]
    rw [List.replicate_succ, List.cons_append] at hcount hdrop ⊢
    have hkept : min (run + 3 - 3) 2 = run := by omega
    rw [readLong, if_pos (beq_self_eq_true quote), hcount, if_neg (by omega), hkept]
    dsimp only
    rw [hdrop, List.append_nil]
  | @quote run body cs _ ih =>
    have hnext := @ih fuel (by simp only [List.length_cons] at hfuel; omega)
    rw [List.replicate_succ', List.append_assoc, List.append_assoc] at hnext
    exact hnext
  | @glyph run first others body cs c hrun hfirst hread _ ih =>
    obtain ⟨fuel, rfl⟩ : ∃ more, fuel = more + 1 := Nat.exists_eq_succ_of_ne_zero (by omega)
    rw [List.length_cons, List.length_append] at hfuel
    have hhead : ∀ d ∈ (first :: (others ++ body) ++ quote :: quote :: quote :: rest).head?,
        d ≠ quote := by
      intro d hd
      obtain rfl : first = d := Option.some.inj hd
      exact hfirst
    rw [List.cons_append, List.append_assoc] at hhead ⊢
    cases run with
    | zero => exact hread (ih (by omega))
    | succ run =>
      obtain ⟨fuel, rfl⟩ : ∃ more, fuel = more + 1 := Nat.exists_eq_succ_of_ne_zero (by omega)
      exact readLong_run (Nat.succ_pos run) hrun hhead (hread (ih (by omega)))

/-- Neither a newline nor a carriage return begins a line end. -/
theorem newline?_cons {c : Char} (hnewline : c ≠ '\n') (hreturn : c ≠ '\r') (rest : List Char) :
    newline? (c :: rest) = none := by
  rw [newline?]
  · exact fun after he => hnewline (List.cons.inj he).1
  · exact fun after he => hreturn (List.cons.inj he).1

/-- A carriage return is a control character. -/
theorem ne_return_of_isControl {c : Char} (h : isControl c = false) : c ≠ '\r' := by
  rintro rfl
  exact absurd h (by decide)

/-- Where an escape stands, no line is folded. -/
theorem skipFold_eq_none {d : Char} (hnewline : d ≠ '\n') (hreturn : d ≠ '\r')
    (hspace : isSpace d = false) (rest : List Char) : skipFold (d :: rest) = none := by
  have hskip : skipSpaces (d :: rest) = d :: rest := by
    rw [skipSpaces, List.dropWhile_cons_of_neg (by simp [hspace])]
  rw [skipFold, hskip, newline?_cons hnewline hreturn]
  rfl

theorem readLong_escape {fuel : Nat} {cs after text rest : List Char} {c : Char}
    (hfold : skipFold cs = none) (hescape : readEscape cs = some (c, after))
    (h : readLong '"' true fuel after = some (text, rest)) :
    readLong '"' true (fuel + 1) ('\\' :: cs) = some (c :: text, rest) := by
  rw [readLong, if_neg (by decide), if_pos (by decide), hfold, hescape]
  simp only [Option.bind_eq_bind, Option.bind_some, h]
  rfl

theorem readLong_newline {quote : Char} {escapes : Bool} {fuel : Nat} {cs text rest : List Char}
    (hquote : '\n' ≠ quote) (h : readLong quote escapes fuel cs = some (text, rest)) :
    readLong quote escapes (fuel + 1) ('\n' :: cs) = some ('\n' :: text, rest) := by
  rw [readLong, if_neg (by simpa using hquote), if_neg (by simp)]
  simp only [newline?, Option.bind_eq_bind, h, Option.bind_some]
  rfl

theorem readLong_plain {quote : Char} {escapes : Bool} {fuel : Nat} {c : Char}
    {cs text rest : List Char} (hquote : c ≠ quote) (hbackslash : escapes = true → c ≠ '\\')
    (hcontrol : isControl c = false) (hnewline : c ≠ '\n')
    (h : readLong quote escapes fuel cs = some (text, rest)) :
    readLong quote escapes (fuel + 1) (c :: cs) = some (c :: text, rest) := by
  have hline := newline?_cons hnewline (ne_return_of_isControl hcontrol) cs
  rw [readLong, if_neg (by simpa using hquote),
    if_neg (by simpa using fun hc he => hbackslash he hc)]
  simp only [hline, hcontrol, Bool.false_eq_true, if_false, Option.bind_eq_bind, h,
    Option.bind_some]
  rfl

/-- Characters with escapes in three double quotes. -/
theorem body_escapeAll {run : Nat} (hrun : run ≤ 2) (cs : List Char) :
    Body '"' true run (escapeAll true 2 run cs) cs := by
  induction cs generalizing run with
  | nil => exact .nil hrun
  | cons c others ih =>
    rw [escapeAll]
    split
    · rename_i hc
      obtain rfl := beq_iff_eq.mp hc
      -- Up to two quotes stand as they are, and the third one in a row is escaped.
      split
      · exact .quote (ih (by omega))
      · refine .glyph '\\' ['"'] hrun (by decide) ?_ (ih (Nat.zero_le 2))
        intro fuel after text rest hafter
        exact readLong_escape (skipFold_eq_none (by decide) (by decide) (by decide) _) rfl hafter
    · rename_i hc
      have hquote : c ≠ '"' := by simpa using hc
      split
      · rename_i hline
        obtain rfl : c = '\n' := by simpa using hline
        exact .glyph '\n' [] hrun (by decide) (readLong_newline (by decide))
          (ih (Nat.zero_le 2))
      · rename_i hline
        have hnewline : c ≠ '\n' := by simpa using hline
        cases hescape : escape? c with
        | none =>
          obtain ⟨hcontrol, hbackslash⟩ := of_escape?_eq_none hescape
          exact .glyph c [] hrun hquote
            (readLong_plain hquote (fun _ => hbackslash) hcontrol hnewline) (ih (Nat.zero_le 2))
        | some e =>
          obtain ⟨d, more, rfl, hline, hreturn, hspace, hread⟩ := readEscape_escape? hescape
          refine .glyph '\\' (d :: more) hrun (by decide) ?_ (ih (Nat.zero_le 2))
          intro fuel after text rest hafter
          exact readLong_escape (skipFold_eq_none hline hreturn hspace _) (hread after) hafter

theorem quoteRun_cons (mark c : Char) (others : List Char) :
    quoteRun mark (c :: others) = if c == mark then quoteRun mark others + 1 else 0 := by
  rw [quoteRun, List.takeWhile_cons]
  split <;> rfl

/-- The longest run of a character is at least as long as the one at the front. -/
theorem quoteRun_le_longestRun (mark : Char) (cs : List Char) :
    quoteRun mark cs ≤ longestRun mark cs := by
  cases cs with
  | nil => exact Nat.le_refl 0
  | cons c others =>
    rw [quoteRun_cons, longestRun]
    split <;> omega

/-- Characters as they are in three single quotes. -/
theorem body_plain {run : Nat} {cs : List Char} (hcodes : ∀ c ∈ cs, isCode c = false)
    (hlong : longestRun '\'' cs ≤ 2) (hrun : run + quoteRun '\'' cs ≤ 2) :
    Body '\'' false run cs cs := by
  induction cs generalizing run with
  | nil => exact .nil (Nat.le_trans (Nat.le_add_right _ _) hrun)
  | cons c others ih =>
    have hothers : ∀ d ∈ others, isCode d = false := fun d hd =>
      hcodes d (List.mem_cons_of_mem _ hd)
    rw [longestRun] at hlong
    rw [quoteRun_cons] at hrun
    by_cases hc : (c == '\'') = true
    · rw [if_pos hc] at hlong hrun
      obtain rfl := beq_iff_eq.mp hc
      exact .quote (ih hothers (by omega) (by omega))
    · rw [if_neg hc] at hlong hrun
      have hquote : c ≠ '\'' := fun he => hc (beq_iff_eq.mpr he)
      have hnext := @ih 0 hothers hlong (by
        have := quoteRun_le_longestRun '\'' others
        omega)
      by_cases hline : c = '\n'
      · subst hline
        exact .glyph '\n' [] hrun hquote (readLong_newline hquote) hnext
      · have hcontrol : isControl c = false := by
          have := hcodes c List.mem_cons_self
          simpa [isCode, hline] using this
        exact .glyph c [] hrun hquote
          (readLong_plain hquote (fun h => absurd h Bool.false_ne_true) hcontrol hline) hnext

/-! ### Written strings -/

/-- Escapes make a string no shorter. -/
theorem length_le_escapeAll (long : Bool) (limit run : Nat) (cs : List Char) :
    cs.length ≤ (escapeAll long limit run cs).length := by
  induction cs generalizing run with
  | nil => exact Nat.le_refl 0
  | cons c others ih =>
    have hrun := ih (run + 1)
    have hzero := ih 0
    rw [escapeAll]
    split
    · split <;> simp only [List.length_cons] <;> omega
    · split
      · simp only [List.length_cons]
        omega
      · cases hescape : escape? c with
        | none =>
          simp only [List.length_cons]
          omega
        | some e =>
          obtain ⟨d, more, rfl, -⟩ := readEscape_escape? hescape
          simp only [List.length_cons, List.length_append]
          omega

/-- In one double quote on either side no quote stands as it is. -/
theorem escapeAll_ne_quote (cs rest others : List Char) (hne : cs ≠ []) :
    escapeAll false 0 0 cs ++ rest ≠ '"' :: others := by
  obtain ⟨c, more, rfl⟩ := List.exists_cons_of_ne_nil hne
  rw [escapeAll]
  split
  · rw [if_neg (Nat.lt_irrefl 0)]
    exact fun he => absurd (List.cons.inj he).1 (by decide)
  · rename_i hc
    have hquote : c ≠ '"' := by simpa using hc
    simp only [Bool.false_and, Bool.false_eq_true, if_false]
    cases hescape : escape? c with
    | none => exact fun he => hquote (List.cons.inj he).1
    | some e =>
      obtain ⟨d, more, rfl, -⟩ := readEscape_escape? hescape
      exact fun he => absurd (List.cons.inj he).1 (by decide)

/-- What is read behind a quote is long enough for the string in it. -/
theorem readBasic_quoted (cs rest : List Char) :
    readBasic ((escapeAll false 0 0 cs ++ '"' :: rest).length + 1)
      (escapeAll false 0 0 cs ++ '"' :: rest) = some (cs, rest) := by
  have hlength := length_le_escapeAll false 0 0 cs
  refine readBasic_escapeAll ?_
  rw [List.length_append]
  omega

/-- A string in one double quote on either side. -/
theorem readString_basicQuoted (cs : List Char) {rest : List Char}
    (hrest : ∀ c ∈ rest.head?, c ≠ '"') :
    readString (basicQuoted cs ++ rest) = some (String.ofList cs, rest) := by
  rw [basicQuoted, List.append_assoc, List.cons_append, List.cons_append, List.nil_append,
    readString]
  · dsimp only
    rw [readBasic_quoted]
    rfl
  · -- A quote behind the first one is the closing one, and no other follows.
    intro others he
    cases cs with
    | nil =>
      rw [escapeAll, List.nil_append] at he
      have he := (List.cons.inj he).2
      subst he
      exact hrest '"' rfl rfl
    | cons c more => exact escapeAll_ne_quote _ _ _ (List.cons_ne_nil _ _) he

/-- A string in one single quote on either side. -/
theorem readString_literal {cs rest : List Char} (hcs : ∀ c ∈ cs, c ≠ '\'' ∧ isControl c = false)
    (hrest : ∀ c ∈ rest.head?, c ≠ '\'') :
    readString ('\'' :: cs ++ ['\''] ++ rest) = some (String.ofList cs, rest) := by
  rw [List.append_assoc, List.cons_append, List.cons_append, List.nil_append, readString]
  · rw [readLiteral_append hcs]
    rfl
  · intro others he
    cases cs with
    | nil =>
      rw [List.nil_append] at he
      have he := (List.cons.inj he).2
      subst he
      exact hrest '\'' rfl rfl
    | cons c more => exact (hcs c List.mem_cons_self).1 (List.cons.inj he).1

/-- A string in three quotes on either side. -/
theorem readString_longQuoted {quote : Char} {escapes : Bool}
    (hquote : (quote, escapes) ∈ [('"', true), ('\'', false)]) {cs body rest : List Char}
    (h : Body quote escapes 0 body cs) (hrest : ∀ c ∈ rest.head?, c ≠ quote)
    (hline : cs.contains '\n' = false →
      newline? (body ++ (quote :: quote :: quote :: rest)) = none) :
    readString (longQuoted quote cs body ++ rest) = some (String.ofList cs, rest) := by
  have hclose : [quote, quote, quote] ++ rest = quote :: quote :: quote :: rest := rfl
  have hread : ∀ {fuel : Nat}, body.length < fuel →
      readLong quote escapes fuel (body ++ (quote :: quote :: quote :: rest)) = some (cs, rest) :=
    fun hfuel => readLong_body h hrest hfuel
  -- A line end right behind the opening quotes is dropped.
  have hopen : ∀ {after : List Char}, (newline? after).getD after
        = body ++ (quote :: quote :: quote :: rest) → body.length < after.length + 1 →
      readString (quote :: quote :: quote :: after) = some (String.ofList cs, rest) := by
    intro after hafter hfuel
    rcases List.mem_cons.mp hquote with he | he
    · obtain ⟨rfl, rfl⟩ := Prod.mk.inj he
      rw [readString]
      dsimp only
      rw [hafter, hread hfuel]
      rfl
    · obtain ⟨rfl, rfl⟩ := Prod.mk.inj (List.mem_singleton.mp he)
      rw [readString]
      dsimp only
      rw [hafter, hread hfuel]
      rfl
  rw [longQuoted, List.append_assoc, List.append_assoc, List.append_assoc, hclose]
  -- If the text has line ends one more is written before it, and that is the one that is dropped.
  cases hcontains : cs.contains '\n' with
  | true =>
    rw [if_pos rfl]
    show readString (quote :: quote :: quote :: '\n' :: (body ++ (quote :: quote :: quote :: rest)))
      = _
    refine hopen rfl ?_
    simp only [List.length_append, List.length_cons]
    omega
  | false =>
    rw [if_neg Bool.false_ne_true]
    show readString (quote :: quote :: quote :: (body ++ (quote :: quote :: quote :: rest))) = _
    refine hopen ?_ ?_
    · rw [hline hcontains]
      rfl
    · simp only [List.length_append, List.length_cons]
      omega

/-- What a string without line ends begins with in three double quotes is no line end. -/
theorem newline?_escapeAll {cs : List Char} (h : cs.contains '\n' = false) (rest : List Char) :
    newline? (escapeAll true 2 0 cs ++ ('"' :: rest)) = none := by
  cases cs with
  | nil => exact newline?_cons (by decide) (by decide) _
  | cons c others =>
    have hnewline : c ≠ '\n' := by
      rintro rfl
      simp at h
    rw [escapeAll]
    split
    · rename_i hc
      obtain rfl := beq_iff_eq.mp hc
      exact newline?_cons (by decide) (by decide) _
    · rw [if_neg (by simpa using hnewline)]
      cases hescape : escape? c with
      | none =>
        have hcontrol := (of_escape?_eq_none hescape).1
        exact newline?_cons hnewline (ne_return_of_isControl hcontrol) _
      | some e =>
        obtain ⟨d, more, rfl, -⟩ := readEscape_escape? hescape
        exact newline?_cons (by decide) (by decide) _

/-- What a string without line ends and control characters begins with is no line end. -/
theorem newline?_plain {cs : List Char} (hlines : cs.contains '\n' = false)
    (hcodes : ∀ c ∈ cs, isCode c = false) (rest : List Char) :
    newline? (cs ++ ('\'' :: rest)) = none := by
  cases cs with
  | nil => exact newline?_cons (by decide) (by decide) _
  | cons c others =>
    have hnewline : c ≠ '\n' := by
      rintro rfl
      simp at hlines
    have hreturn : c ≠ '\r' := by
      rintro rfl
      exact absurd (hcodes _ List.mem_cons_self) (by decide)
    exact newline?_cons hnewline hreturn _

/-- A character of which there is no run is not there. -/
theorem notMem_of_longestRun {mark : Char} {cs : List Char} (h : longestRun mark cs = 0) :
    mark ∉ cs := by
  induction cs with
  | nil => exact List.not_mem_nil
  | cons c others ih =>
    rw [longestRun] at h
    split at h
    · omega
    · rename_i hc
      rw [List.mem_cons, not_or]
      exact ⟨fun he => hc (beq_iff_eq.mpr he.symm), ih h⟩

/-- **A written string is read back**, whatever quotes it is written in. -/
theorem readString_quoteText (cs : List Char) {rest : List Char}
    (hrest : ∀ c ∈ rest.head?, c ≠ '"' ∧ c ≠ '\'') :
    readString (quoteText cs ++ rest) = some (String.ofList cs, rest) := by
  have hdouble : ∀ c ∈ rest.head?, c ≠ '"' := fun c hc => (hrest c hc).1
  have hsingle : ∀ c ∈ rest.head?, c ≠ '\'' := fun c hc => (hrest c hc).2
  have hlong : readString (longQuoted '"' cs (escapeAll true 2 0 cs) ++ rest)
      = some (String.ofList cs, rest) :=
    readString_longQuoted (by decide) (body_escapeAll (Nat.zero_le 2) cs) hdouble
      fun h => newline?_escapeAll h _
  -- The kinds of quotes, in the order in which they are tried.
  rw [quoteText]
  split
  · exact readString_basicQuoted cs hdouble
  · split
    · rename_i h
      simp only [Bool.and_eq_true, Bool.not_eq_true', beq_iff_eq] at h
      obtain ⟨⟨hcodes, hsingles⟩, hlines⟩ := h
      refine readString_literal (fun c hc => ⟨fun he => ?_, ?_⟩) hsingle
      · exact notMem_of_longestRun hsingles (he ▸ hc)
      · have hcode : isCode c = false := by simpa using List.any_eq_false.mp hcodes c hc
        have hnewline : c ≠ '\n' := by
          rintro rfl
          simp [hc] at hlines
        simpa [isCode, hnewline] using hcode
    · split
      · exact hlong
      · split
        · rename_i h
          simp only [Bool.and_eq_true, Bool.not_eq_true', decide_eq_true_eq] at h
          obtain ⟨hcodes, hsingles⟩ := h
          have hcode : ∀ c ∈ cs, isCode c = false := fun c hc => by
            simpa using List.any_eq_false.mp hcodes c hc
          have hfirst := quoteRun_le_longestRun '\'' cs
          exact readString_longQuoted (by decide) (body_plain hcode hsingles (by omega)) hsingle
            fun hlines => newline?_plain hlines hcode _
        · split
          · exact hlong
          · exact readString_basicQuoted cs hdouble

/-- A written string begins with a quote. -/
theorem exists_quoteText_eq_cons (cs : List Char) :
    ∃ c others, quoteText cs = c :: others ∧ (c = '"' ∨ c = '\'') := by
  rw [quoteText]
  split
  · exact ⟨_, _, rfl, .inl rfl⟩
  · split
    · exact ⟨_, _, rfl, .inr rfl⟩
    · split
      · exact ⟨_, _, rfl, .inl rfl⟩
      · split
        · exact ⟨_, _, rfl, .inr rfl⟩
        · split
          · exact ⟨_, _, rfl, .inl rfl⟩
          · exact ⟨_, _, rfl, .inl rfl⟩

/-! ### Written keys -/

/-- What may follow a written key: a blank, a dot or a closing bracket. -/
def isKeyStop (c : Char) : Bool :=
  c == ' ' || c == '.' || c == ']'

/-- A key in double quotes. -/
theorem readKeyPart_basicQuoted (cs rest : List Char) :
    readKeyPart (basicQuoted cs ++ rest) = some (String.ofList cs, rest) := by
  rw [basicQuoted, List.append_assoc, List.cons_append, List.cons_append, List.nil_append,
    readKeyPart, readBasic_quoted]
  rfl

/-- A key without quotes. -/
theorem readKeyPart_bare {cs : List Char} (hne : cs ≠ []) (hbare : ∀ c ∈ cs, isBare c = true)
    {c : Char} (hc : isKeyStop c = true) (rest : List Char) :
    readKeyPart (cs ++ c :: rest) = some (String.ofList cs, c :: rest) := by
  have hstop : isBare c = false := by
    rw [isKeyStop] at hc
    simp only [Bool.or_eq_true, beq_iff_eq] at hc
    obtain (rfl | rfl) | rfl := hc <;> decide
  have htake : (cs ++ c :: rest).takeWhile isBare = cs := by
    rw [List.takeWhile_append_of_pos hbare, List.takeWhile_cons_of_neg (by simp [hstop]),
      List.append_nil]
  have hdrop : (cs ++ c :: rest).dropWhile isBare = c :: rest := by
    rw [List.dropWhile_append_of_pos hbare, List.dropWhile_cons_of_neg (by simp [hstop])]
  obtain ⟨d, others, rfl⟩ := List.exists_cons_of_ne_nil hne
  have hd := hbare d List.mem_cons_self
  rw [List.cons_append] at htake hdrop ⊢
  -- A key that is bare is not taken for a quoted one, since a quote is not bare.
  rw [readKeyPart, htake, hdrop]
  · rfl
  · intro after he
    rw [(List.cons.inj he).1] at hd
    exact absurd hd (by decide)
  · intro after he
    rw [(List.cons.inj he).1] at hd
    exact absurd hd (by decide)

/-- **A written key is read back**, with quotes or without. -/
theorem readKeyPart_quoteKey (key : String) {c : Char} (hc : isKeyStop c = true)
    (rest : List Char) :
    readKeyPart (quoteKey key ++ c :: rest) = some (key, c :: rest) := by
  rw [quoteKey]
  split
  · rename_i h
    simp only [Bool.and_eq_true, Bool.not_eq_true', List.isEmpty_eq_false_iff,
      List.all_eq_true] at h
    rw [readKeyPart_bare h.1 h.2 hc, String.ofList_toList]
  · split
    · rw [readKeyPart_basicQuoted, String.ofList_toList]
    · split
      · rename_i h
        simp only [Bool.and_eq_true, Bool.not_eq_true'] at h
        have hcs : ∀ d ∈ key.toList, d ≠ '\'' ∧ isControl d = false := by
          intro d hd
          refine ⟨?_, by simpa using List.any_eq_false.mp h.1 d hd⟩
          rintro rfl
          simp [hd] at h
        rw [List.append_assoc, List.cons_append, List.cons_append, List.nil_append, readKeyPart,
          readLiteral_append hcs]
        exact congrArg (fun s => some (s, c :: rest)) (String.ofList_toList)
      · rw [readKeyPart_basicQuoted, String.ofList_toList]

/-- A written key begins with a character that is no blank. -/
theorem exists_quoteKey_eq_cons (key : String) :
    ∃ c others, quoteKey key = c :: others ∧ (isBare c = true ∨ c = '"' ∨ c = '\'') := by
  rw [quoteKey]
  split
  · rename_i h
    simp only [Bool.and_eq_true, Bool.not_eq_true', List.isEmpty_eq_false_iff,
      List.all_eq_true] at h
    obtain ⟨c, others, hcs⟩ := List.exists_cons_of_ne_nil h.1
    exact ⟨c, others, hcs, .inl (h.2 c (hcs ▸ List.mem_cons_self))⟩
  · split
    · exact ⟨'"', _, rfl, .inr (.inl rfl)⟩
    · split
      · exact ⟨'\'', _, rfl, .inr (.inr rfl)⟩
      · exact ⟨'"', _, rfl, .inr (.inl rfl)⟩

end DocRelay.Toml
