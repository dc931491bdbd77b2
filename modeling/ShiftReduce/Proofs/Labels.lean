import ShiftReduce.Proofs.Pieces
import ShiftReduce.Tree.Relabel
import ShiftReduce.Text.Lines
import Mathlib.Data.List.Nodup

/-!
What names and token descriptions tell. The names of symbols are different words, in which there is
neither a blank nor a newline. So a description is split at its first blank, and it tells the kind
and the text of its token, whatever characters the text holds; and a text made of lines is split at
its newlines.
-/

namespace ShiftReduce

/-! ### Splitting at a character -/

/-- A list is split at the first place of an element. -/
theorem split_at_first {α : Type} {mark : α} {front front' back back' : List α}
    (clear : mark ∉ front) (clear' : mark ∉ front')
    (h : front ++ mark :: back = front' ++ mark :: back') : front = front' ∧ back = back' := by
  induction front generalizing front' with
  | nil =>
    cases front' with
    | nil => simpa using h
    | cons c front' => exact absurd ((List.cons.inj h).1 ▸ List.mem_cons_self) clear'
  | cons c front ih =>
    cases front' with
    | nil => exact absurd ((List.cons.inj h).1 ▸ List.mem_cons_self) clear
    | cons c' front' =>
      simp only [List.cons_append, List.cons.injEq, List.mem_cons, not_or] at h clear clear'
      obtain ⟨hfront, hback⟩ := ih clear.2 clear'.2 h.2
      exact ⟨by rw [h.1, hfront], hback⟩

namespace Text

theorem toList_unlines_cons (line : String) (lines : List String) :
    (unlines (line :: lines)).toList = line.toList ++ '\n' :: (unlines lines).toList := by
  simp

/-- Lines without newlines of their own are determined by the text made of them. -/
theorem unlines_injective {lines lines' : List String}
    (clear : ∀ line ∈ lines, IsLine line.toList) (clear' : ∀ line ∈ lines', IsLine line.toList)
    (h : unlines lines = unlines lines') : lines = lines' := by
  induction lines generalizing lines' with
  | nil =>
    cases lines' with
    | nil => rfl
    | cons line' lines' =>
      have hlists := congrArg String.toList h
      simp at hlists
  | cons line lines ih =>
    have hlists := congrArg String.toList h
    cases lines' with
    | nil => simp at hlists
    | cons line' lines' =>
      rw [List.forall_mem_cons] at clear clear'
      rw [toList_unlines_cons, toList_unlines_cons] at hlists
      obtain ⟨hline, hlines⟩ := split_at_first clear.1 clear'.1 hlists
      rw [String.toList_inj] at hline hlines
      rw [hline, ih clear.2 clear'.2 hlines]

/-- A text has as many newlines as it is made of lines. -/
theorem count_unlines {lines : List String} (clear : ∀ line ∈ lines, IsLine line.toList) :
    (unlines lines).toList.count '\n' = lines.length := by
  induction lines with
  | nil => rfl
  | cons line lines ih =>
    rw [List.forall_mem_cons] at clear
    have hline : line.toList.count '\n' = 0 := List.count_eq_zero.mpr clear.1
    rw [toList_unlines_cons, List.count_append, hline, Nat.zero_add, List.count_cons_self,
      ih clear.2, List.length_cons]

end Text

/-! ### Names -/

namespace Symbol

/-- Every symbol once, terminals before nonterminals. -/
def all : List Symbol := Terminal.all.map terminal ++ Nonterminal.all.map nonterminal

theorem mem_all (symbol : Symbol) : symbol ∈ all := by
  cases symbol with
  | terminal kind => simp [all, Terminal.mem_all]
  | nonterminal kind => simp [all, Nonterminal.mem_all]

theorem names_nodup : (all.map name).Nodup := by decide

theorem name_injective {symbol other : Symbol} (h : symbol.name = other.name) : symbol = other :=
  List.inj_on_of_nodup_map names_nodup (mem_all symbol) (mem_all other) h

theorem names_are_words : ∀ symbol ∈ all, symbol.name.toList ≠ [] ∧
    ' ' ∉ symbol.name.toList ∧ IsLine symbol.name.toList := by
  simp only [IsLine]
  decide

theorem name_ne_nil (symbol : Symbol) : symbol.name.toList ≠ [] :=
  (names_are_words symbol (mem_all symbol)).1

theorem blank_not_mem_name (symbol : Symbol) : ' ' ∉ symbol.name.toList :=
  (names_are_words symbol (mem_all symbol)).2.1

theorem isLine_name (symbol : Symbol) : IsLine symbol.name.toList :=
  (names_are_words symbol (mem_all symbol)).2.2

/-- A name reaches to the end of the text or to the first blank. -/
theorem span_name (symbol : Symbol) {behind : List Char} (stops : ∀ c ∈ behind.head?, c = ' ') :
    (symbol.name.toList ++ behind).takeWhile (· != ' ') = symbol.name.toList ∧
      (symbol.name.toList ++ behind).dropWhile (· != ' ') = behind := by
  refine span_stops behind (fun c mem => ?_) fun c mem => ?_
  · rw [bne_iff_ne]
    rintro rfl
    exact symbol.blank_not_mem_name mem
  · rw [stops c mem]
    rfl

/-- So a name is told from what stands behind it. -/
theorem name_append_injective {symbol other : Symbol} {behind behind' : List Char}
    (stops : ∀ c ∈ behind.head?, c = ' ') (stops' : ∀ c ∈ behind'.head?, c = ' ')
    (h : symbol.name.toList ++ behind = other.name.toList ++ behind') :
    symbol = other ∧ behind = behind' := by
  obtain ⟨hname, hbehind⟩ := symbol.span_name stops
  rw [h, (other.span_name stops').1, String.toList_inj] at hname
  rw [h, (other.span_name stops').2] at hbehind
  exact ⟨name_injective hname.symm, hbehind.symm⟩

end Symbol

/-! ### Descriptions -/

namespace Token

/-- What a description shows behind the name of the kind. -/
def suffix : Option String → List Char
  | none => []
  | some text => ' ' :: '`' :: (text.toList ++ ['`'])

theorem toList_describe (token : Token) :
    token.describe.toList = (Symbol.terminal token.kind).name.toList ++ suffix token.text := by
  obtain ⟨kind, _ | text, line⟩ := token
  · exact (List.append_nil _).symm
  · simp [describe, suffix, Symbol.name]

theorem suffix_injective : ∀ {text text' : Option String}, suffix text = suffix text' → text = text'
  | none, none, _ => rfl
  | some text, some text', h => by simpa [suffix, String.toList_inj] using h

theorem head_suffix : ∀ (text : Option String), ∀ c ∈ (suffix text).head?, c = ' '
  | none, _, mem => by cases mem
  | some _, _, mem => (Option.some.inj mem).symm

/-- The name in front of a suffix is told by where its first blank is. -/
theorem name_suffix_injective {symbol symbol' : Symbol} {text text' : Option String}
    (h : symbol.name.toList ++ suffix text = symbol'.name.toList ++ suffix text') :
    symbol = symbol' ∧ text = text' := by
  obtain ⟨hsymbol, hsuffix⟩ :=
    Symbol.name_append_injective (head_suffix text) (head_suffix text') h
  exact ⟨hsymbol, suffix_injective hsuffix⟩

/-- A description tells everything of a token but its place. -/
theorem describe_eq_iff {token token' : Token} :
    token.describe = token'.describe ↔ token.unplaced = token'.unplaced := by
  rw [← String.toList_inj, toList_describe, toList_describe]
  constructor
  · intro h
    obtain ⟨hkind, htext⟩ := name_suffix_injective h
    rw [unplaced, unplaced, Symbol.terminal.inj hkind, htext]
  · intro h
    obtain ⟨hkind, htext, -⟩ := Token.mk.inj h
    rw [hkind, htext]

/-- A token is never described like a nonterminal. -/
theorem describe_ne_name (token : Token) (head : Nonterminal) : token.describe ≠ head.name := by
  intro h
  have hlists : (Symbol.terminal token.kind).name.toList ++ suffix token.text =
      (Symbol.nonterminal head).name.toList ++ suffix none := by
    rw [← toList_describe, h, suffix, List.append_nil]
    rfl
  cases (name_suffix_injective hlists).1

/-- A token whose text, if it has one, holds no newline. -/
def OnOneLine (token : Token) : Prop := ∀ text ∈ token.text, IsLine text.toList

theorem OnOneLine.isLine_describe {token : Token} (onOneLine : token.OnOneLine) :
    IsLine token.describe.toList := by
  rw [toList_describe, isLine_append]
  refine ⟨Symbol.isLine_name _, ?_⟩
  obtain ⟨kind, _ | text, line⟩ := token
  · exact List.not_mem_nil
  · have htext : IsLine text.toList := onOneLine text rfl
    rw [suffix, isLine_cons, isLine_cons, isLine_append]
    exact ⟨by decide, by decide, htext, by simp [IsLine]⟩

end Token

end ShiftReduce
