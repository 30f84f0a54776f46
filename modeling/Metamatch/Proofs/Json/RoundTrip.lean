import Mathlib.Data.List.Basic
import Mathlib.Data.List.TakeWhile
import Metamatch.Json.Parser
import Metamatch.Json.Printer

/-!
# What is written reads back

* `Json.Standard`: values of natural numbers and whole texts, as saved results hold them.
* `Json.read`: the lexer and the parser at once, from given open brackets on.
* `Json.read_text`, `Json.read_word`: what they make of a text and of a word that were written.
* `Json.parse?_pretty`, `Json.parse?_compact`: a value that is written reads back as it was.
-/

namespace Metamatch.Json

/-! ## Texts -/

namespace Token

/-- The piece that a written character is read as: a control without an escape of its own is written
by its number. -/
def piece (c : Char) : Piece :=
  if c.toNat < 0x20 ∧ c ∉ ['\x08', '\x0c', '\n', '\r', '\t'] then .unit c.toNat else .char c

theorem joinPieces_unit {value : Nat} (hhigh : isHigh value = false) (hlow : isLow value = false)
    (rest : List Piece) :
    joinPieces (.unit value :: rest) = (joinPieces rest).map (Char.ofNat value :: ·) := by
  cases rest with
  | nil => simp [joinPieces, hhigh, hlow]
  | cons next rest =>
    cases next with
    | char c => simp [joinPieces, hhigh, hlow]
    | unit low => rw [joinPieces, hhigh, hlow]; rfl

theorem joinPieces_cons (c : Char) (pieces : List Piece) :
    joinPieces (piece c :: pieces) = (joinPieces pieces).map (c :: ·) := by
  unfold piece
  split
  · next h =>
    have hhigh : isHigh c.toNat = false := by
      simp only [isHigh, Bool.and_eq_false_iff, decide_eq_false_iff_not]
      omega
    have hlow : isLow c.toNat = false := by
      simp only [isLow, Bool.and_eq_false_iff, decide_eq_false_iff_not]
      omega
    rw [joinPieces_unit hhigh hlow, Char.ofNat_toNat]
  · rfl

theorem joinPieces_map (cs : List Char) : joinPieces (cs.map piece) = some cs := by
  induction cs with
  | nil => rfl
  | cons c rest ih => rw [List.map_cons, joinPieces_cons, ih, Option.map_some]

end Token

namespace Lexer

variable {state next : Lexer} {read : List Token.Piece} {c : Char} {rest : List Char}

theorem run_cons {tokens : List Token} (h : state.step c = some (next, tokens)) :
    run state (c :: rest) = (run next rest).map (tokens ++ ·) := by
  rw [run, h]
  exact (Option.map_eq_bind).symm

theorem run_quiet (h : state.step c = some (next, [])) : run state (c :: rest) = run next rest := by
  rw [run_cons h]
  cases run next rest <;> rfl

theorem run_writeChar : run (.text read) (writeChar c ++ rest) =
    run (.text (Token.piece c :: read)) rest := by
  unfold writeChar
  split
  iterate 7 exact (run_quiet rfl).trans (run_quiet rfl)
  next hquote hslash _ _ _ _ _ =>
    split
    · next hcontrol =>
      have hhigh := Text.hexValue?_hexDigit (show c.toNat / 16 < 16 by omega)
      have hlow := Text.hexValue?_hexDigit (show c.toNat % 16 < 16 by omega)
      have hpiece : Token.piece c = .unit c.toNat := by
        rw [Token.piece, if_pos]
        simp_all
      rw [hpiece]
      have hfifth : step (Text.hexDigit (c.toNat / 16)) (.unit read 2 0) =
          some (.unit read 1 (c.toNat / 16), []) := by
        simp [step, hhigh]
      have hlast : step (Text.hexDigit (c.toNat % 16)) (.unit read 1 (c.toNat / 16)) =
          some (.text (.unit c.toNat :: read), []) := by
        simp [step, hlow]
        omega
      refine (run_quiet rfl).trans ((run_quiet rfl).trans ((run_quiet rfl).trans
        ((run_quiet rfl).trans ((run_quiet hfifth).trans (run_quiet hlast)))))
    · next hcontrol =>
      have hpiece : Token.piece c = .char c := by
        rw [Token.piece, if_neg fun h => hcontrol h.1]
      rw [hpiece]
      refine run_quiet ?_
      simp only [step]
      rw [if_neg hquote, if_neg hslash, if_neg hcontrol]

theorem run_writeChars (text : List Char) :
    run (.text read) (text.flatMap writeChar ++ '"' :: rest) =
      (run .outside rest).map (Token.ofPieces ((text.map Token.piece).reverse ++ read) :: ·) := by
  induction text generalizing read with
  | nil =>
    have hquote : step '"' (.text read) = some (.outside, [Token.ofPieces read]) := rfl
    exact run_cons hquote
  | cons c text ih =>
    rw [List.flatMap_cons, List.append_assoc, run_writeChar, ih, List.map_cons, List.reverse_cons,
      List.append_assoc]
    rfl

theorem run_writeText (text : String) : run .outside (writeText text.toList ++ rest) =
    (run .outside rest).map (.text (some text) :: ·) := by
  have hpieces : Token.ofPieces ((text.toList.map Token.piece).reverse ++ []) =
      .text (some text) := by
    rw [Token.ofPieces, List.append_nil, List.reverse_reverse, Token.joinPieces_map,
      Option.map_some, String.ofList_toList]
  rw [writeText, List.cons_append, List.append_assoc]
  refine (run_quiet rfl).trans ((run_writeChars text.toList).trans ?_)
  rw [hpieces]
  rfl

/-! ## Words -/

/-- The characters that may follow a word. -/
def Breaks (rest : List Char) : Prop := ∀ c ∈ rest.head?, isWordChar c = false

theorem run_wordChars {word read : List Char} (hword : ∀ c ∈ word, isWordChar c = true) :
    run (.word read) (word ++ rest) = run (.word (word.reverse ++ read)) rest := by
  induction word generalizing read with
  | nil => rfl
  | cons c word ih =>
    obtain ⟨hc, hword⟩ := List.forall_mem_cons.1 hword
    have hstep : step c (.word read) = some (.word (c :: read), []) := by simp [step, hc]
    rw [List.cons_append, run_quiet hstep, ih hword, List.reverse_cons, List.append_assoc]
    rfl

theorem run_break {read : List Char} {token : Token} (hrest : Breaks rest)
    (htoken : Token.ofWord? read.reverse = some token) :
    run (.word read) rest = (run .outside rest).map (token :: ·) := by
  cases rest with
  | nil => simp [run, finish, htoken]
  | cons c rest =>
    have hc : isWordChar c = false := hrest c rfl
    cases hstart : start? c with
    | none => simp [run, step, hc, htoken, hstart]
    | some next =>
      obtain ⟨next, tokens⟩ := next
      have hword : step c (.word read) = some (next, token :: tokens) := by
        simp [step, hc, htoken, hstart]
      have houtside : step c .outside = some (next, tokens) := hstart
      rw [run_cons hword, run_cons houtside, Option.map_map]
      rfl

theorem start?_of_isWordChar (h : isWordChar c = true) : start? c = some (.word [c], []) := by
  have hspace : isSpace c = false := by
    refine Bool.eq_false_iff.2 fun hspace => ?_
    simp only [isSpace, Bool.or_eq_true, beq_iff_eq] at hspace
    rcases hspace with ((rfl | rfl) | rfl) | rfl <;> cases h
  have hquote : c ≠ '"' := by
    rintro rfl
    cases h
  simp [start?, hspace, hquote, h]

theorem run_word {word : List Char} {token : Token} (hrest : Breaks rest)
    (hword : ∀ c ∈ word, isWordChar c = true) (htoken : Token.ofWord? word = some token) :
    run .outside (word ++ rest) = (run .outside rest).map (token :: ·) := by
  cases word with
  | nil => cases htoken
  | cons c word =>
    obtain ⟨hc, hword⟩ := List.forall_mem_cons.1 hword
    have hstart : step c .outside = some (.word [c], []) := start?_of_isWordChar hc
    rw [List.cons_append, run_quiet hstart, run_wordChars hword]
    refine run_break hrest ?_
    rwa [List.reverse_append, List.reverse_reverse]

end Lexer

/-! ## Numbers -/

namespace Token

theorem isDigit_of_mem_toDigits {n : Nat} : ∀ c ∈ Nat.toDigits 10 n, c.isDigit = true :=
  fun _ hc => Nat.isDigit_of_mem_toDigits (by decide) (by decide) hc

theorem head?_toDigits {n : Nat} (hn : 0 < n) : (Nat.toDigits 10 n).head? ≠ some '0' := by
  induction n using Nat.strongRecOn with
  | _ n ih =>
    rcases Nat.lt_or_ge n 10 with h | h
    · have hall : ∀ m < 10, 0 < m → Nat.digitChar m ≠ '0' := by decide
      rw [Nat.toDigits_of_lt_base h]
      simpa using hall n h hn
    · rw [Nat.toDigits_of_base_le (by decide) h, List.head?_append_of_ne_nil _ Nat.toDigits_ne_nil]
      exact ih (n / 10) (by omega) (by omega)

theorem isWhole_toDigits (n : Nat) : isWhole (Nat.toDigits 10 n) = true := by
  rcases Nat.eq_zero_or_pos n with rfl | hn
  · rw [Nat.toDigits_zero]
    rfl
  · have hhead := head?_toDigits hn
    have hdigits : isDigits (Nat.toDigits 10 n) = true := by
      simp only [isDigits, Bool.and_eq_true, List.all_eq_true]
      exact ⟨by simp, isDigit_of_mem_toDigits⟩
    unfold isWhole
    split
    · rfl
    · next hcs => simp [hcs] at hhead
    · exact hdigits

theorem number?_toDigits (n : Nat) : number? (Nat.toDigits 10 n) = some (.nat n) := by
  have hsign : (Nat.toDigits 10 n).head? ≠ some '-' := fun hhead => by
    have := isDigit_of_mem_toDigits '-' (List.mem_of_mem_head? hhead)
    cases this
  have htake : (Nat.toDigits 10 n).takeWhile Char.isDigit = Nat.toDigits 10 n :=
    List.takeWhile_eq_self_iff.2 isDigit_of_mem_toDigits
  have hdrop : (Nat.toDigits 10 n).dropWhile Char.isDigit = [] :=
    List.dropWhile_eq_nil_iff.2 isDigit_of_mem_toDigits
  unfold number?
  simp only [if_neg hsign, htake, hdrop, isWhole_toDigits, Nat.ofDigitChars_ten_toDigits]
  rfl

theorem ofWord?_toDigits (n : Nat) : ofWord? (Nat.toDigits 10 n) = some (.plain (.nat n)) := by
  have hdigits : (Nat.toDigits 10 n).all Char.isDigit = true :=
    List.all_eq_true.2 isDigit_of_mem_toDigits
  have hword : ∀ word : List Char, word.all Char.isDigit = false → Nat.toDigits 10 n ≠ word := by
    rintro word hword rfl
    rw [hdigits] at hword
    cases hword
  unfold ofWord?
  rw [if_neg (hword _ (by decide)), if_neg (hword _ (by decide)), if_neg (hword _ (by decide)),
    number?_toDigits]
  rfl

end Token

/-! ## Values -/

/-- Values of natural numbers and whole texts. -/
inductive Standard : Json → Prop
  | null : Standard .null
  | bool (value : Bool) : Standard (.bool value)
  | nat (value : Nat) : Standard (.nat value)
  | str (value : String) : Standard (.str value)
  | list {items : List Json} : (∀ item ∈ items, Standard item) → Standard (.list items)
  | record {members : List (String × Json)} :
    (∀ member ∈ members, Standard member.2) → Standard (.record members)

/-- A layout whose breaks and gaps are blank. -/
structure Layout.Blank (layout : Layout) : Prop where
  breakAt : ∀ depth, ∀ c ∈ layout.breakAt depth, Lexer.isSpace c = true
  gap : ∀ c ∈ layout.gap, Lexer.isSpace c = true

/-- The value that the rest of a document makes up, given the open brackets and the goal. -/
def read (frames : List Frame) (goal : Goal) (document : List Char) : Option Json :=
  (Lexer.run .outside document).bind (assemble frames goal)

/-- A value may come next. -/
def Goal.Open (goal : Goal) : Prop := goal = .value ∨ goal = .firstItem

section Reading

variable {frames frames' : List Frame} {goal goal' : Goal} {document rest : List Char}

theorem read_token {token : Token}
    (hrun : Lexer.run .outside document = (Lexer.run .outside rest).map (token :: ·))
    (hstep : step? frames goal token = some (frames', goal')) :
    read frames goal document = read frames' goal' rest := by
  rw [read, read, hrun, Option.bind_map]
  refine congrArg _ (funext fun tokens => ?_)
  rw [Function.comp_apply, assemble, hstep]
  rfl

theorem read_blanks {blanks : List Char} (h : ∀ c ∈ blanks, Lexer.isSpace c = true) :
    read frames goal (blanks ++ rest) = read frames goal rest := by
  induction blanks with
  | nil => rfl
  | cons c blanks ih =>
    obtain ⟨hc, h⟩ := List.forall_mem_cons.1 h
    have hstep : Lexer.step c .outside = some (.outside, []) := by
      simp [Lexer.step, Lexer.start?, hc]
    rw [← ih h, read, read, List.cons_append, Lexer.run_quiet hstep]

theorem step?_of_open {value : Json} (hgoal : goal.Open) :
    step? frames goal (.plain value) = some (frames, .after value) := by
  rcases hgoal with rfl | rfl <;> rfl

theorem read_word {word : List Char} {value : Json} (hgoal : goal.Open)
    (hrest : Lexer.Breaks rest) (hword : ∀ c ∈ word, Lexer.isWordChar c = true)
    (hvalue : Token.ofWord? word = some (.plain value)) :
    read frames goal (word ++ rest) = read frames (.after value) rest :=
  read_token (Lexer.run_word hrest hword hvalue) (step?_of_open hgoal)

theorem read_text {text : String} (hgoal : goal.Open) :
    read frames goal (writeJsonText (some text) ++ rest) = read frames (.after (.str text)) rest :=
  read_token (Lexer.run_writeText text) (by rcases hgoal with rfl | rfl <;> rfl)

theorem read_nat {n : Nat} (hgoal : goal.Open) (hrest : Lexer.Breaks rest) :
    read frames goal (Nat.toDigits 10 n ++ rest) = read frames (.after (.nat n)) rest := by
  refine read_word hgoal hrest (fun c hc => ?_) (Token.ofWord?_toDigits n)
  simp [Lexer.isWordChar, Char.isAlphanum, Token.isDigit_of_mem_toDigits c hc]

theorem read_punctuation {c : Char} {token : Token}
    (hstart : Lexer.start? c = some (.outside, [token]))
    (hstep : step? frames goal token = some (frames', goal')) :
    read frames goal (c :: rest) = read frames' goal' rest := by
  have houtside : Lexer.step c .outside = some (.outside, [token]) := hstart
  exact read_token (Lexer.run_cons houtside) hstep

/-! ### Lists and objects -/

theorem breaks_blanks {blanks : List Char} (h : ∀ c ∈ blanks, Lexer.isSpace c = true) {c : Char}
    (hc : Lexer.isWordChar c = false) : Lexer.Breaks (blanks ++ c :: rest) := by
  cases blanks with
  | nil =>
    rintro d ⟨⟩
    exact hc
  | cons blank blanks =>
    rintro d ⟨⟩
    have hspace := h blank List.mem_cons_self
    simp only [Lexer.isSpace, Bool.or_eq_true, beq_iff_eq] at hspace
    rcases hspace with ((rfl | rfl) | rfl) | rfl <;> rfl

variable {layout : Layout} {depth : Nat}

theorem breaks_items (hlayout : layout.Blank) (items : List Json) :
    Lexer.Breaks (writeItems layout depth items ++ rest) := by
  cases items with
  | nil =>
    rw [writeItems, List.append_assoc]
    exact breaks_blanks (hlayout.breakAt depth) rfl
  | cons item items =>
    rintro c ⟨⟩
    rfl

theorem breaks_members (hlayout : layout.Blank) (members : List (JsonText × Json)) :
    Lexer.Breaks (writeMembers layout depth members ++ rest) := by
  cases members with
  | nil =>
    rw [writeMembers, List.append_assoc]
    exact breaks_blanks (hlayout.breakAt depth) rfl
  | cons member members =>
    rintro c ⟨⟩
    rfl

/-- Wherever a value may come next, it is written so that it reads as it was. -/
def Reads (layout : Layout) (value : Json) : Prop :=
  ∀ {depth : Nat} {frames : List Frame} {goal : Goal} {rest : List Char}, goal.Open →
    Lexer.Breaks rest →
      read frames goal (write layout depth value ++ rest) = read frames (.after value) rest

theorem read_items (hlayout : layout.Blank) {items done : List Json} {last : Json}
    (h : ∀ item ∈ items, Reads layout item) :
    read (.list done :: frames) (.after last) (writeItems layout depth items ++ rest) =
      read frames (.after (.list (done.reverse ++ last :: items))) rest := by
  induction items generalizing done last with
  | nil =>
    rw [writeItems, List.append_assoc, read_blanks (hlayout.breakAt depth)]
    refine (read_punctuation rfl rfl).trans ?_
    rw [List.reverse_cons]
    rfl
  | cons item items ih =>
    obtain ⟨hitem, h⟩ := List.forall_mem_cons.1 h
    rw [writeItems, List.cons_append, List.append_assoc, List.append_assoc]
    refine (read_punctuation rfl rfl).trans ?_
    rw [read_blanks (hlayout.breakAt _), hitem (.inl rfl) (breaks_items hlayout items), ih h,
      List.reverse_cons, List.append_assoc]
    rfl

theorem read_member (hlayout : layout.Blank) {members : List (JsonText × Json)} {key : String}
    {value : Json} (hgoal : goal = .firstKey members ∨ goal = .key members)
    (hvalue : Reads layout value) (hrest : Lexer.Breaks rest) :
    read frames goal (layout.breakAt (depth + 1) ++ writeJsonText (some key) ++ ':' :: layout.gap ++
        write layout (depth + 1) value ++ rest) =
      read (.object members (some key) :: frames) (.after value) rest := by
  simp only [List.append_assoc, List.cons_append]
  rw [read_blanks (hlayout.breakAt _)]
  have hkey : step? frames goal (.text (some key)) = some (frames, .colon members (some key)) := by
    rcases hgoal with rfl | rfl <;> rfl
  refine (read_token (Lexer.run_writeText key) hkey).trans ((read_punctuation rfl rfl).trans ?_)
  rw [read_blanks hlayout.gap]
  exact hvalue (.inl rfl) hrest

theorem read_members (hlayout : layout.Blank) {members : List (String × Json)}
    {done : List (JsonText × Json)} {key : JsonText} {last : Json}
    (h : ∀ member ∈ members, Reads layout member.2) :
    read (.object done key :: frames) (.after last)
        (writeMembers layout depth (members.map fun member => (some member.1, member.2)) ++ rest) =
      read frames (.after (.object (done.reverse ++ (key, last) ::
        members.map fun member => (some member.1, member.2)))) rest := by
  induction members generalizing done key last with
  | nil =>
    rw [List.map_nil, writeMembers, List.append_assoc, read_blanks (hlayout.breakAt depth)]
    refine (read_punctuation rfl rfl).trans ?_
    rw [List.reverse_cons]
    rfl
  | cons member members ih =>
    obtain ⟨hmember, h⟩ := List.forall_mem_cons.1 h
    rw [List.map_cons, writeMembers, List.cons_append, List.append_assoc _ _ rest]
    refine (read_punctuation rfl rfl).trans ?_
    rw [read_member hlayout (.inr rfl) hmember (breaks_members hlayout _), ih h,
      List.reverse_cons, List.append_assoc]
    rfl

/-- **A value that is written reads as it was**, whatever follows it. -/
theorem Standard.reads (hlayout : layout.Blank) {value : Json} (h : Standard value) :
    Reads layout value := by
  induction h with
  | null =>
    intro depth frames goal rest hgoal hrest
    have hword : ∀ c ∈ "null".toList, Lexer.isWordChar c = true :=
      List.all_eq_true.1 (by decide)
    exact read_word hgoal hrest hword rfl
  | bool value =>
    intro depth frames goal rest hgoal hrest
    have htrue : ∀ c ∈ "true".toList, Lexer.isWordChar c = true :=
      List.all_eq_true.1 (by decide)
    have hfalse : ∀ c ∈ "false".toList, Lexer.isWordChar c = true :=
      List.all_eq_true.1 (by decide)
    cases value with
    | true => exact read_word hgoal hrest htrue rfl
    | false => exact read_word hgoal hrest hfalse rfl
  | nat value => exact fun hgoal hrest => read_nat hgoal hrest
  | str value => exact fun hgoal _ => read_text hgoal
  | @list items _ ih =>
    intro depth frames goal rest hgoal _
    have hopen : step? frames goal .openList = some (.list [] :: frames, .firstItem) := by
      rcases hgoal with rfl | rfl <;> rfl
    cases items with
    | nil => exact (read_punctuation rfl hopen).trans (read_punctuation rfl rfl)
    | cons item items =>
      obtain ⟨hitem, hitems⟩ := List.forall_mem_cons.1 ih
      rw [write, List.cons_append, List.append_assoc, List.append_assoc,
        read_punctuation rfl hopen, read_blanks (hlayout.breakAt _),
        hitem (.inr rfl) (breaks_items hlayout items), read_items hlayout hitems]
      rfl
  | @record members _ ih =>
    intro depth frames goal rest hgoal _
    have hopen : step? frames goal .openObject = some (frames, .firstKey []) := by
      rcases hgoal with rfl | rfl <;> rfl
    cases members with
    | nil => exact (read_punctuation rfl hopen).trans (read_punctuation rfl rfl)
    | cons member members =>
      obtain ⟨hmember, hmembers⟩ := List.forall_mem_cons.1 ih
      rw [Json.record, List.map_cons, write, List.cons_append, List.append_assoc _ _ rest,
        read_punctuation rfl hopen, read_member hlayout (.inl rfl) hmember
          (breaks_members hlayout _), read_members hlayout hmembers]
      rfl

end Reading

/-! ## Documents -/

theorem Layout.compact_blank : Layout.compact.Blank := ⟨by simp [compact], by simp [compact]⟩

theorem Layout.pretty_blank : Layout.pretty.Blank where
  breakAt depth c hc := by
    rw [pretty, List.mem_cons, List.mem_replicate] at hc
    rcases hc with rfl | ⟨-, rfl⟩ <;> rfl
  gap c hc := by
    rw [List.mem_singleton.1 hc]
    rfl

theorem parse?_write {layout : Layout} (hlayout : layout.Blank) {value : Json}
    (h : Standard value) : parse? (String.ofList (value.write layout 0)) = some value := by
  have hread : read [] .value (write layout 0 value ++ []) = read [] (.after value) [] :=
    h.reads hlayout (.inl rfl) (by rintro c ⟨⟩)
  rw [List.append_nil] at hread
  rw [parse?, Token.scan, String.toList_ofList]
  exact hread

/-- **A value that is written one item a line reads back.** -/
theorem parse?_pretty {value : Json} (h : Standard value) : parse? value.pretty = some value :=
  parse?_write Layout.pretty_blank h

/-- **A value that is written without blanks reads back.** -/
theorem parse?_compact {value : Json} (h : Standard value) : parse? value.compact = some value :=
  parse?_write Layout.compact_blank h

end Metamatch.Json
