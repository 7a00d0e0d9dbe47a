import Mathlib.Data.List.Forall2
import Mathlib.Data.List.TakeWhile
import Mathlib.Data.Nat.Digits.Defs
import LiveRange.Instr.Template

/-! # What a template prints

How a template is to be read is said here apart from the functions that read it, and these are shown to
do just that:

* `Template.Cuts` — how a text falls into tokens, where a run of digits is taken whole
  (`Template.cuts_iff`);
* `Token.Numeral`, `Token.Refers` — the number that a run of digits writes, and the operand that a
  token refers to (`Token.refers_iff`);
* `Token.Prints` — what a token prints (`Token.prints_iff`).

A part of the tokens of a text is what the characters of that part are cut into
(`Template.Cuts.left`, `Template.Cuts.right`), so a template prints what its parts print as long as no
token stands across the cut (`Template.fill_append`).  Without that condition it need not: the digits of
a reference may go on in the second part. -/

namespace LiveRange

/-! ## Cutting -/

namespace Template

/-- How a text falls into tokens, from the left. -/
inductive Cuts : List Char → List Token → Prop where
  | nil : Cuts [] []
  | plain {c : Char} {rest : List Char} {tokens : List Token} (h_plain : c ≠ mark)
      (h_rest : Cuts rest tokens) : Cuts (c :: rest) (.plain c :: tokens)
  | lone : Cuts [mark] [.lone]
  /-- The character after a mark may be any, and the run of digits after it is as long as it can be. -/
  | ref {kind : Char} {digits rest : List Char} {tokens : List Token}
      (h_digits : ∀ c ∈ digits, c.isDigit = true)
      (h_end : ∀ c, rest.head? = some c → c.isDigit = false) (h_rest : Cuts rest tokens) :
      Cuts (mark :: kind :: (digits ++ rest)) (.ref kind digits :: tokens)

theorem cuts_cut (cs : List Char) : Cuts cs (cut cs) := by
  fun_induction cut cs with
  | case1 => exact .nil
  | case2 => exact .lone
  | case3 kind rest ih =>
    have h_end : ∀ c, (rest.dropWhile Char.isDigit).head? = some c → c.isDigit = false := by
      intro c h_head
      have h_stop := List.head?_dropWhile_not Char.isDigit rest
      rwa [h_head] at h_stop
    have h_ref : Cuts (mark :: kind :: (rest.takeWhile Char.isDigit ++ rest.dropWhile Char.isDigit)) _ :=
      .ref (fun _ => List.mem_takeWhile_imp) h_end ih
    rwa [List.takeWhile_append_dropWhile] at h_ref
  | case4 c rest h_plain ih => exact .plain h_plain ih

theorem takeWhile_run {digits rest : List Char} (h_digits : ∀ c ∈ digits, c.isDigit = true)
    (h_end : ∀ c, rest.head? = some c → c.isDigit = false) :
    (digits ++ rest).takeWhile Char.isDigit = digits ∧
      (digits ++ rest).dropWhile Char.isDigit = rest := by
  rw [List.takeWhile_append_of_pos h_digits, List.dropWhile_append_of_pos h_digits]
  cases rest with
  | nil => simp
  | cons c rest => simp [h_end c rfl]

theorem Cuts.cut_eq {cs : List Char} {tokens : List Token} (h : Cuts cs tokens) : cut cs = tokens := by
  induction h with
  | nil => rw [cut]
  | plain h_plain _ ih =>
    rw [cut.eq_def]
    simp only [h_plain, ↓reduceIte, ih]
  | lone => simp only [cut, ↓reduceIte]
  | ref h_digits h_end _ ih =>
    obtain ⟨h_take, h_drop⟩ := takeWhile_run h_digits h_end
    rw [cut, if_pos rfl]
    simp only [h_take, h_drop, ih]

theorem cuts_iff {cs : List Char} {tokens : List Token} : Cuts cs tokens ↔ cut cs = tokens := by
  constructor
  · exact Cuts.cut_eq
  · rintro rfl
    exact cuts_cut cs

/-! ## Cutting in two -/

theorem Cuts.source_eq {cs : List Char} {tokens : List Token} (h : Cuts cs tokens) :
    tokens.flatMap Token.source = cs := by
  rw [← h.cut_eq, flatMap_source_cut]

theorem Cuts.tail {cs : List Char} {token : Token} {tokens : List Token}
    (h : Cuts cs (token :: tokens)) : Cuts (tokens.flatMap Token.source) tokens := by
  cases h with
  | plain _ h_rest => exact h_rest.source_eq.symm ▸ h_rest
  | lone => exact .nil
  | ref _ _ h_rest => exact h_rest.source_eq.symm ▸ h_rest

/-- The last tokens of a text are those of what they were cut from. -/
theorem Cuts.right {cs : List Char} {front back : List Token} (h : Cuts cs (front ++ back)) :
    Cuts (back.flatMap Token.source) back := by
  induction front generalizing cs with
  | nil => exact h.source_eq.symm ▸ h
  | cons token front ih => exact ih h.tail

/-- So are the first: a run of digits that ends before the other tokens ends without them, too. -/
theorem Cuts.left {cs : List Char} {all : List Token} (h : Cuts cs all) :
    ∀ {front back : List Token}, all = front ++ back → Cuts (front.flatMap Token.source) front := by
  induction h with
  | nil =>
    intro front back h_all
    obtain ⟨rfl, _⟩ := List.append_eq_nil_iff.mp h_all.symm
    exact .nil
  | plain h_plain _ ih =>
    intro front back h_all
    cases front with
    | nil => exact .nil
    | cons token front =>
      rw [List.cons_append, List.cons.injEq] at h_all
      obtain ⟨rfl, h_rest⟩ := h_all
      exact .plain h_plain (ih h_rest)
  | lone =>
    intro front back h_all
    cases front with
    | nil => exact .nil
    | cons token front =>
      rw [List.cons_append, List.cons.injEq] at h_all
      obtain ⟨rfl, h_rest⟩ := h_all
      obtain ⟨rfl, _⟩ := List.append_eq_nil_iff.mp h_rest.symm
      exact .lone
  | ref h_digits h_end h_cuts ih =>
    intro front back h_all
    cases front with
    | nil => exact .nil
    | cons token front =>
      rw [List.cons_append, List.cons.injEq] at h_all
      obtain ⟨rfl, h_rest⟩ := h_all
      refine .ref h_digits (fun c h_head => h_end c ?_) (ih h_rest)
      rw [← h_cuts.source_eq, h_rest, List.flatMap_append, List.head?_append]
      exact Option.or_eq_some_iff.mpr (.inl h_head)

end Template

/-! ## References -/

namespace Token

/-- A run of digits writes a number that fits into 64 bits.  Zeros may lead. -/
structure Numeral (digits : List Char) (k : Nat) : Prop where
  nonempty : digits ≠ []
  value : Nat.ofDigits 10 (digits.reverse.map fun d => d.toNat - '0'.toNat) = k
  fits : k < 2 ^ 64

/-- A token refers to the operand of this name. -/
inductive Refers (ops : Operands) : Token → String → Prop where
  | dst {digits : List Char} {k : Nat} {t : Temp} (h_number : Numeral digits k)
      (h_operand : ops.dst[k]? = some t) : Refers ops (.ref 'd' digits) t.name
  | src {digits : List Char} {k : Nat} {t : Temp} (h_number : Numeral digits k)
      (h_operand : ops.src[k]? = some t) : Refers ops (.ref 's' digits) t.name
  | label {digits : List Char} {k : Nat} {l : Label} (h_number : Numeral digits k)
      (h_operand : ops.labels[k]? = some l) : Refers ops (.ref 'j' digits) l.name

theorem decimal_eq_ofDigits (digits : List Char) :
    decimal digits = Nat.ofDigits 10 (digits.reverse.map fun d => d.toNat - '0'.toNat) := by
  rw [Nat.ofDigits_eq_foldr, List.foldr_map, List.foldr_reverse, decimal]
  simp only [Nat.cast_id, Nat.add_comm]

theorem position?_eq_some {digits : List Char} {k : Nat} :
    position? digits = some k ↔ Numeral digits k := by
  rw [position?, decimal_eq_ofDigits, Option.ite_none_right_eq_some, Option.some.injEq]
  constructor
  · rintro ⟨⟨h_nonempty, h_fits⟩, rfl⟩
    exact ⟨h_nonempty, rfl, h_fits⟩
  · rintro ⟨h_nonempty, rfl, h_fits⟩
    exact ⟨⟨h_nonempty, h_fits⟩, rfl⟩

theorem operand_eq_some {β : Type} {operands : List β} {nameOf : β → String} {digits : List Char}
    {name : String} : ((position? digits).bind (operands[·]?)).map nameOf = some name ↔
      ∃ k x, Numeral digits k ∧ operands[k]? = some x ∧ nameOf x = name := by
  simp only [Option.map_eq_some_iff, Option.bind_eq_some_iff, position?_eq_some]
  constructor
  · rintro ⟨x, ⟨k, h_number, h_operand⟩, h_name⟩
    exact ⟨k, x, h_number, h_operand, h_name⟩
  · rintro ⟨k, x, h_number, h_operand, h_name⟩
    exact ⟨x, ⟨k, h_number, h_operand⟩, h_name⟩

theorem refers_iff {ops : Operands} {token : Token} {name : String} :
    token.Refers ops name ↔ token.resolve? ops = some name := by
  constructor
  · intro h
    cases h with
    | dst h_number h_operand => exact operand_eq_some.mpr ⟨_, _, h_number, h_operand, rfl⟩
    | src h_number h_operand => exact operand_eq_some.mpr ⟨_, _, h_number, h_operand, rfl⟩
    | label h_number h_operand => exact operand_eq_some.mpr ⟨_, _, h_number, h_operand, rfl⟩
  · intro h
    cases token with
    | plain c => simp [resolve?] at h
    | lone => simp [resolve?] at h
    | ref kind digits =>
      simp only [resolve?] at h
      split_ifs at h with h_dst h_src h_label
      · obtain ⟨k, t, h_number, h_operand, rfl⟩ := operand_eq_some.mp h
        exact h_dst ▸ .dst h_number h_operand
      · obtain ⟨k, t, h_number, h_operand, rfl⟩ := operand_eq_some.mp h
        exact h_src ▸ .src h_number h_operand
      · obtain ⟨k, l, h_number, h_operand, rfl⟩ := operand_eq_some.mp h
        exact h_label ▸ .label h_number h_operand

/-! ## Printing -/

/-- What a token prints: the name of the operand it refers to, or itself if it refers to none. -/
inductive Prints (ops : Operands) : Token → List Char → Prop where
  | operand {token : Token} {name : String} (h_refers : token.Refers ops name) :
      Prints ops token name.toList
  | copy {token : Token} (h_none : ∀ name, ¬ token.Refers ops name) : Prints ops token token.source

theorem prints_iff {ops : Operands} {token : Token} {piece : List Char} :
    token.Prints ops piece ↔ token.fill ops = piece := by
  unfold fill
  constructor
  · intro h
    cases h with
    | operand h_refers => rw [refers_iff.mp h_refers]
    | copy h_none =>
      have h_resolve : token.resolve? ops = none :=
        Option.eq_none_iff_forall_ne_some.mpr fun name h_name => h_none name (refers_iff.mpr h_name)
      rw [h_resolve]
  · rintro rfl
    cases h_resolve : token.resolve? ops with
    | some name => exact .operand (refers_iff.mpr h_resolve)
    | none =>
      refine .copy fun name h_refers => ?_
      rw [refers_iff, h_resolve] at h_refers
      exact Option.some_ne_none name h_refers.symm

end Token

namespace Template

variable {ops : Operands}

theorem toList_fill (template : String) :
    (fill template ops).toList = (cut template.toList).flatMap (Token.fill ops) :=
  String.toList_ofList

theorem fill_eq_iff {template out : String} :
    fill template ops = out ↔ ∃ tokens pieces, Cuts template.toList tokens ∧
      List.Forall₂ (Token.Prints ops) tokens pieces ∧ out.toList = pieces.flatten := by
  have h_prints : Token.Prints ops = fun token piece => token.fill ops = piece :=
    funext₂ fun token piece => propext Token.prints_iff
  rw [← String.toList_inj, toList_fill, List.flatMap_def, h_prints]
  constructor
  · intro h_out
    exact ⟨_, (cut template.toList).map (Token.fill ops), cuts_cut _, by simp, h_out.symm⟩
  · rintro ⟨tokens, pieces, h_cuts, h_pieces, h_out⟩
    have h_map : tokens.map (Token.fill ops) = pieces := by
      rwa [← List.forall₂_eq_eq_eq, List.forall₂_map_left_iff]
    rw [h_cuts.cut_eq, h_map, h_out]

theorem fill_eq_self {template : String}
    (h : ∀ tokens, Cuts template.toList tokens → ∀ token ∈ tokens, ∀ name, ¬ token.Refers ops name) :
    fill template ops = template := by
  have h_copied : ∀ token ∈ cut template.toList, token.fill ops = token.source := fun token h_mem =>
    Token.prints_iff.mp (.copy (h _ (cuts_cut _) token h_mem))
  rw [← String.toList_inj, toList_fill, List.flatMap_congr h_copied, flatMap_source_cut]

theorem fill_append {a b : String} {front back : List Token} (h : Cuts (a ++ b).toList (front ++ back))
    (h_front : front.flatMap Token.source = a.toList) :
    fill (a ++ b) ops = fill a ops ++ fill b ops := by
  have h_back : back.flatMap Token.source = b.toList := by
    have h_source := h.source_eq
    rwa [List.flatMap_append, h_front, String.toList_append, List.append_cancel_left_eq] at h_source
  have h_left : cut a.toList = front := (h_front ▸ h.left rfl).cut_eq
  have h_right : cut b.toList = back := (h_back ▸ h.right).cut_eq
  rw [← String.toList_inj, String.toList_append, toList_fill, toList_fill, toList_fill, h.cut_eq, h_left,
    h_right, List.flatMap_append]

end Template

namespace Instr

/-- An instruction that is printed from this template, which can refer to these operands. -/
inductive Templated : Instr → String → Operands → Prop where
  | step {template : String} {dst src : List Temp} :
      Templated (.oper template dst src none) template ⟨dst, src, []⟩
  | transfer {template : String} {dst src : List Temp} {targets : Targets} :
      Templated (.oper template dst src (some targets)) template ⟨dst, src, targets.labels⟩
  | move {template : String} {dst src : Temp} :
      Templated (.move template dst src) template ⟨[dst], [src], []⟩

theorem Templated.text_eq {i : Instr} {template : String} {ops : Operands}
    (h : i.Templated template ops) : i.text = Template.fill template ops := by
  cases h <;> rfl

/-- An operation or a move prints its template token by token: a token that refers to an operand as the
name of that operand, and any other as it stands.  So it prints the template itself where no token
refers to an operand, and of a template that falls in two between tokens one part after the other. -/
theorem text_substitutes :
    (∀ {i : Instr} {template : String} {ops : Operands}, i.Templated template ops →
      (∀ out, i.text = out ↔ ∃ tokens pieces, Template.Cuts template.toList tokens ∧
        List.Forall₂ (Token.Prints ops) tokens pieces ∧ out.toList = pieces.flatten) ∧
      ((∀ tokens, Template.Cuts template.toList tokens →
        ∀ token ∈ tokens, ∀ name, ¬ token.Refers ops name) → i.text = template)) ∧
    ∀ {i j both : Instr} {a b : String} {ops : Operands}, i.Templated a ops → j.Templated b ops →
      both.Templated (a ++ b) ops → ∀ {front back : List Token},
        Template.Cuts (a ++ b).toList (front ++ back) → front.flatMap Token.source = a.toList →
          both.text = i.text ++ j.text := by
  constructor
  · intro i template ops h
    rw [h.text_eq]
    exact ⟨fun out => Template.fill_eq_iff, Template.fill_eq_self⟩
  · intro i j both a b ops h_i h_j h_both front back h_cuts h_front
    rw [h_i.text_eq, h_j.text_eq, h_both.text_eq]
    exact Template.fill_append h_cuts h_front

/-- A template with a zero that leads, a mark that is doubled, a reference to no operand, one without
digits and a mark at its end.  One of the operands has a name that could be a reference. -/
def tangled : Instr := op "`s01`d0```d9`j`" [⟨"t1"⟩] [⟨"t2"⟩, ⟨"`d0"⟩]

theorem text_substitutes_tangled :
    (tangled.text = "`d0t1```d9`j`" ∧ ∃ tokens pieces,
      Template.Cuts "`s01`d0```d9`j`".toList tokens ∧
        List.Forall₂ (Token.Prints ⟨[⟨"t1"⟩], [⟨"t2"⟩, ⟨"`d0"⟩], []⟩) tokens pieces ∧
          "`d0t1```d9`j`".toList = pieces.flatten) ∧
    (op "nop `s4" [] []).text = "nop `s4" ∧
    (move ("`s0" ++ ", `d0") ⟨"t1"⟩ ⟨"t2"⟩).text =
      (move "`s0" ⟨"t1"⟩ ⟨"t2"⟩).text ++ (move ", `d0" ⟨"t1"⟩ ⟨"t2"⟩).text := by
  have h_text : tangled.text = "`d0t1```d9`j`" := by decide +kernel
  have h_dangling : ∀ token ∈ Template.cut "nop `s4".toList, token.resolve? ⟨[], [], []⟩ = none := by
    decide +kernel
  have h_cuts : Template.Cuts ("`s0" ++ ", `d0").toList
      ([.ref 's' ['0']] ++ [.plain ',', .plain ' ', .ref 'd' ['0']]) :=
    Template.cuts_iff.mpr (by decide +kernel)
  refine ⟨⟨h_text, ((text_substitutes.1 .step).1 _).mp h_text⟩, (text_substitutes.1 .step).2 ?_,
    text_substitutes.2 .move .move .move h_cuts rfl⟩
  rintro tokens h token h_mem name h_refers
  rw [← h.cut_eq] at h_mem
  rw [Token.refers_iff, h_dangling token h_mem] at h_refers
  exact Option.some_ne_none name h_refers.symm

end Instr

end LiveRange
