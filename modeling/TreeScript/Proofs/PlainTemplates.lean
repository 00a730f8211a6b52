import Mathlib.Data.List.TakeWhile
import TreeScript.Template.Render

/-!
# Plain templates

A plain template is text in which variables are named, without sections, comments or other tags.
Parsing finds exactly these variables, and the text between them to the last blank. Filling it in
joins the texts of its pieces, or misses the first variable that the table does not have.
-/

namespace TreeScript.Template

/-- A part of a plain template. -/
inductive Piece where
  | text (s : String)
  | tag (name : String)
  deriving Repr, DecidableEq

/-- The characters of names in tags: none that is blank or that means something in a tag. Letters,
digits and underscores are among them, in all scripts. -/
def isNameChar (c : Char) : Bool :=
  !Text.isBlank c && !(['!', '>', '&', '/', '#', '^', '=', '.', '\x7b', '\x7d'].contains c)

namespace Piece

def source : Piece → List Char
  | .text s => s.toList
  | .tag name => '\x7b' :: '\x7b' :: (name.toList ++ ['\x7d', '\x7d'])

/-- Text opens no tag, and a name is a word. -/
def IsPlain : Piece → Prop
  | .text s => '\x7b' ∉ s.toList
  | .tag name => name ≠ "" ∧ ∀ c ∈ name.toList, isNameChar c = true

instance : DecidablePred IsPlain
  | .text s => inferInstanceAs (Decidable ('\x7b' ∉ s.toList))
  | .tag name =>
    decidable_of_iff (name ≠ "" ∧ name.toList.all isNameChar = true)
      (and_congr_right' List.all_eq_true)

/-- The template that the pieces make up. -/
def template (ps : List Piece) : String := String.ofList (ps.flatMap source)

/-- The text of a piece, or the name that has none. -/
def filled (see : String → Option String) : Piece → Except String String
  | .text s => .ok s
  | .tag name =>
    match see name with
    | some s => .ok s
    | none => .error name

/-- The texts of the pieces behind each other, or the first name that has none. -/
def joined (see : String → Option String) : List Piece → Except String String
  | [] => .ok ""
  | p :: ps => (p.filled see).bind fun s => (joined see ps).map (s ++ ·)

/-- What a piece becomes, if its name has a text. -/
def shown (see : String → Option String) : Piece → String
  | .text s => s
  | .tag name => (see name).getD ""

theorem filled_of_seen {see : String → Option String} {p : Piece}
    (hp : ∀ name, p = .tag name → see name ≠ none) : p.filled see = .ok (p.shown see) := by
  cases p with
  | text s => rfl
  | tag name =>
    obtain ⟨s, hs⟩ := Option.ne_none_iff_exists'.mp (hp name rfl)
    rw [filled, shown, hs]
    rfl

theorem joined_of_seen {see : String → Option String} {ps : List Piece}
    (hps : ∀ name, .tag name ∈ ps → see name ≠ none) :
    joined see ps = .ok (String.join (ps.map (shown see))) := by
  induction ps with
  | nil => rfl
  | cons p ps ih =>
    have hp : p.filled see = .ok (p.shown see) :=
      filled_of_seen fun name hname => hps name (hname ▸ List.mem_cons_self)
    have hrest := ih fun name hname => hps name (List.mem_cons_of_mem _ hname)
    rw [List.map_cons, String.join_cons, joined, hp, hrest]
    rfl

theorem joined_of_unseen {see : String → Option String} {before after : List Piece} {name : String}
    (hbefore : ∀ n, .tag n ∈ before → see n ≠ none) (hname : see name = none) :
    joined see (before ++ .tag name :: after) = .error name := by
  induction before with
  | nil =>
    rw [List.nil_append, joined, filled, hname]
    rfl
  | cons p before ih =>
    have hp : p.filled see = .ok (p.shown see) :=
      filled_of_seen fun n hn => hbefore n (hn ▸ List.mem_cons_self)
    have hrest := ih fun n hn => hbefore n (List.mem_cons_of_mem _ hn)
    rw [List.cons_append, joined, hp, hrest]
    rfl

/-- A last piece is joined to the text before it. -/
theorem joined_concat (see : String → Option String) (ps : List Piece) (p : Piece) :
    joined see (ps ++ [p]) =
      (joined see ps).bind fun s => (p.filled see).map (s ++ ·) := by
  induction ps with
  | nil =>
    rw [List.nil_append, joined, joined, joined]
    cases p.filled see <;> simp [Except.bind, Except.map]
  | cons q ps ih =>
    rw [List.cons_append, joined, joined, ih]
    cases q.filled see <;> cases joined see ps <;> cases p.filled see <;>
      simp [Except.bind, Except.map, String.append_assoc]

end Piece

/-! ## Tags -/

theorem isBlank_of_isNameChar {c : Char} (h : isNameChar c = true) : Text.isBlank c = false := by
  rw [isNameChar, Bool.and_eq_true, Bool.not_eq_true'] at h
  exact h.1

theorem ne_of_isNameChar {c d : Char} (h : isNameChar c = true)
    (hd : d ∈ ['!', '>', '&', '/', '#', '^', '=', '.', '\x7b', '\x7d']) : c ≠ d := by
  rintro rfl
  simp only [isNameChar, Bool.and_eq_true, Bool.not_eq_true', List.contains_eq_mem,
    decide_eq_false_iff_not] at h
  exact h.2 hd

/-- Words are names. -/
theorem isNameChar_of_word {c : Char} (h : c.isAlphanum = true ∨ c = '_') : isNameChar c = true := by
  have hranges : (65 ≤ c.toNat ∧ c.toNat ≤ 90) ∨ (97 ≤ c.toNat ∧ c.toNat ≤ 122) ∨
      (48 ≤ c.toNat ∧ c.toNat ≤ 57) ∨ c.toNat = 95 := by
    rcases h with h | rfl
    · rcases Bool.or_eq_true_iff.mp h with hletter | hdigit
      · rcases Bool.or_eq_true_iff.mp hletter with hupper | hlower
        · exact .inl (of_decide_eq_true hupper : 'A'.val ≤ c.val ∧ c.val ≤ 'Z'.val)
        · obtain ⟨hlow, hhigh⟩ := Bool.and_eq_true_iff.mp hlower
          have hlow : 'a'.val ≤ c.val := of_decide_eq_true hlow
          have hhigh : c.val ≤ 'z'.val := of_decide_eq_true hhigh
          exact .inr (.inl ⟨hlow, hhigh⟩)
      · exact .inr (.inr (.inl (Char.isDigit_iff_toNat.mp hdigit)))
    · simp
  have hblank : Text.isBlank c = false := by
    simp only [Text.isBlank, Text.inRanges, Text.blanks, List.any_eq_false, List.mem_cons,
      List.not_mem_nil, or_false, Bool.and_eq_true, decide_eq_true_eq]
    rintro r (rfl | rfl | rfl | rfl | rfl | rfl | rfl | rfl | rfl | rfl) ⟨hlow, hhigh⟩ <;> omega
  have hsign : ['!', '>', '&', '/', '#', '^', '=', '.', '\x7b', '\x7d'].contains c = false := by
    rw [List.contains_eq_mem, decide_eq_false_iff_not]
    intro hmem
    have hcode := List.mem_map_of_mem (f := Char.toNat) hmem
    simp only [List.map_cons, List.map_nil, List.mem_cons, List.not_mem_nil, or_false,
      Char.reduceToNat] at hcode
    omega
  rw [isNameChar, hblank, hsign]
  rfl

theorem close_of_isNameChar {c : Char} (hc : isNameChar c = true) (s : List Char) :
    Delimiters.standard.close (c :: s) = none := by
  have hne : ('\x7d' == c) = false := beq_eq_false_iff_ne.mpr (ne_of_isNameChar hc (by simp)).symm
  rw [Delimiters.close, List.dropWhile_cons_of_neg (by simp [isBlank_of_isNameChar hc])]
  simp [Delimiters.standard, List.isPrefixOf, hne]

/-- The shortest key that closes is the whole name. -/
theorem shortestKey_name {name : List Char} (hne : name ≠ [])
    (hname : ∀ c ∈ name, isNameChar c = true) (rest : List Char) :
    shortestKey (fun _ => true) Delimiters.standard.close (name ++ '\x7d' :: '\x7d' :: rest) =
      some (name, rest) := by
  induction name with
  | nil => exact absurd rfl hne
  | cons c name ih =>
    cases name with
    | nil => rfl
    | cons d name =>
      have hd : isNameChar d = true := hname d (by simp)
      have hrest := ih (List.cons_ne_nil _ _) fun c hc => hname c (List.mem_cons_of_mem _ hc)
      rw [List.cons_append, shortestKey, hrest, List.cons_append, close_of_isNameChar hd]
      rfl

/-- A name between braces is the tag of a variable. -/
theorem tag?_name {name : List Char} (hne : name ≠ [])
    (hname : ∀ c ∈ name, isNameChar c = true) (rest : List Char) :
    Delimiters.standard.tag? ('\x7b' :: '\x7b' :: (name ++ '\x7d' :: '\x7d' :: rest)) =
      some ⟨.variable, name, rest⟩ := by
  have hkey := shortestKey_name hne hname rest
  obtain ⟨c, tail, rfl⟩ := List.exists_cons_of_ne_nil hne
  have hc : isNameChar c = true := hname c List.mem_cons_self
  have hblank := isBlank_of_isNameChar hc
  have hsign : TagKind.ofSign? c = none := by
    unfold TagKind.ofSign?
    split <;> first | rfl | exact absurd rfl (ne_of_isNameChar hc (by simp))
  have hprefix : Delimiters.standard.opening.isPrefixOf
      ('\x7b' :: '\x7b' :: (c :: tail ++ '\x7d' :: '\x7d' :: rest)) = true := rfl
  rw [Delimiters.tag?, if_pos hprefix]
  rw [List.cons_append] at hkey ⊢
  simp only [Delimiters.standard, List.length_cons, List.length_nil, List.drop_succ_cons,
    List.drop_zero] at hkey ⊢
  simp only [behindBlanks, hblank, Bool.false_eq_true, if_false, Delimiters.markedKey,
    if_neg (ne_of_isNameChar hc (d := '=') (by simp)),
    if_neg (ne_of_isNameChar hc (d := '\x7b') (by simp)), Option.orElse_none,
    Delimiters.signedKey, hsign, Delimiters.plainKey, hkey, Option.map_some]

theorem tag?_of_ne {c : Char} (hc : c ≠ '\x7b') (s : List Char) :
    Delimiters.standard.tag? (c :: s) = none := by
  have hne : ('\x7b' == c) = false := beq_eq_false_iff_ne.mpr hc.symm
  rw [Delimiters.tag?, if_neg (by simp [Delimiters.standard, List.isPrefixOf, hne])]

/-! ## The text before a tag -/

theorem find_of_not_mem {s : List Char} (hs : '\x7b' ∉ s) (atStart : Bool) :
    find .standard atStart s = none := by
  induction s generalizing atStart with
  | nil => rfl
  | cons c s ih =>
    have htag : Delimiters.standard.tag? ((c :: s).dropWhile isPad) = none := by
      cases hdrop : (c :: s).dropWhile isPad with
      | nil => rfl
      | cons d t =>
        have hd : d ∈ c :: s :=
          (List.dropWhile_sublist isPad).subset (hdrop ▸ List.mem_cons_self)
        exact tag?_of_ne (fun h => hs (h ▸ hd)) t
    rw [find, htag, ih fun h => hs (List.mem_cons_of_mem _ h)]
    rfl

/-- The first tag is found behind all of the text; blanks at the end of the text go with the tag. -/
theorem find_tag {text name : List Char} (htext : '\x7b' ∉ text) (hne : name ≠ [])
    (hname : ∀ c ∈ name, isNameChar c = true) (rest : List Char) (atStart : Bool) :
    ∃ before startsLine blanks, before ++ blanks = text ∧
      find .standard atStart (text ++ '\x7b' :: '\x7b' :: (name ++ '\x7d' :: '\x7d' :: rest)) =
        some ⟨before, startsLine, blanks, ⟨.variable, name, rest⟩⟩ := by
  have htag := tag?_name hne hname rest
  generalize htail : '\x7b' :: (name ++ '\x7d' :: '\x7d' :: rest) = tail at htag ⊢
  have hpad : isPad '\x7b' = false := rfl
  induction text generalizing atStart with
  | nil =>
    refine ⟨[], atStart, [], rfl, ?_⟩
    rw [List.nil_append, find, List.dropWhile_cons_of_neg (by simp [hpad]), htag]
    simp [hpad]
  | cons c text ih =>
    cases hdrop : (c :: text).dropWhile isPad with
    | nil =>
      have hall : ∀ d ∈ c :: text, isPad d = true := List.dropWhile_eq_nil_iff.mp hdrop
      have hbehind : (c :: text ++ '\x7b' :: tail).dropWhile isPad = '\x7b' :: tail := by
        rw [List.dropWhile_append_of_pos hall, List.dropWhile_cons_of_neg (by simp [hpad])]
      have hblanks : (c :: text ++ '\x7b' :: tail).takeWhile isPad = c :: text := by
        rw [List.takeWhile_append_of_pos hall, List.takeWhile_cons_of_neg (by simp [hpad])]
        exact List.append_nil _
      refine ⟨[], atStart, c :: text, rfl, ?_⟩
      rw [List.cons_append] at hbehind hblanks ⊢
      rw [find, hbehind, htag, hblanks]
    | cons d text' =>
      -- what comes first behind the blanks opens no tag, so the search goes on
      have hd : d ≠ '\x7b' := by
        rintro rfl
        exact htext ((List.dropWhile_sublist isPad).subset (hdrop ▸ List.mem_cons_self))
      have hnone :
          Delimiters.standard.tag? ((c :: (text ++ '\x7b' :: tail)).dropWhile isPad) = none := by
        rw [← List.cons_append, List.dropWhile_append, hdrop]
        exact tag?_of_ne hd _
      obtain ⟨before, startsLine, blanks, hsplit, hfind⟩ :=
        ih (fun h => htext (List.mem_cons_of_mem _ h)) (isLineBreak c)
      refine ⟨c :: before, startsLine, blanks, congrArg (c :: ·) hsplit, ?_⟩
      rw [List.cons_append, find, hnone, hfind]
      rfl

/-! ## Parsing -/

def literals (text : List Char) : List Node :=
  if text.isEmpty then [] else [.literal (String.ofList text)]

/-- The nodes that pieces parse to, behind text that no tag has ended yet. -/
def nodes (pending : List Char) : List Piece → List Node
  | [] => literals pending
  | .text s :: ps => nodes (pending ++ s.toList) ps
  | .tag n :: ps => literals pending ++ .variable n :: nodes [] ps

theorem nodes_addText (st : State) (text : List Char) :
    (st.addText text).nodes = (literals text).reverse ++ st.nodes := by
  unfold State.addText literals
  split <;> rfl

theorem delimiters_addText (st : State) (text : List Char) :
    (st.addText text).delimiters = st.delimiters := by
  unfold State.addText
  split <;> rfl

/-- A variable is taken in behind the text before it. -/
theorem step_variable (length : Nat) (st : State) (before blanks rest name : List Char)
    (startsLine : Bool) :
    step length st ⟨before, startsLine, blanks, ⟨.variable, name, rest⟩⟩ =
      .ok ({ st.addText (before ++ blanks) with atStart := startsAfter rest rest }.add
        (.variable (String.ofList name)), rest) := by
  have halone : (startsLine && endsLine rest && (TagKind.variable != .variable)) = false := by
    simp
  simp only [step, halone, Bool.false_eq_true, if_false]
  rfl

theorem run_pieces {ps : List Piece} (hps : ∀ p ∈ ps, p.IsPlain) (length fuel : Nat)
    {pending : List Char} (hpending : '\x7b' ∉ pending) {st : State}
    (hst : st.delimiters = .standard) (hfuel : (pending ++ ps.flatMap Piece.source).length < fuel) :
    ∃ st', run length fuel st (pending ++ ps.flatMap Piece.source) = .ok st' ∧
      st'.nodes = (nodes pending ps).reverse ++ st.nodes := by
  induction ps generalizing fuel pending st with
  | nil =>
    obtain ⟨fuel, rfl⟩ := Nat.exists_eq_succ_of_ne_zero (Nat.ne_zero_of_lt hfuel)
    refine ⟨st.addText pending, ?_, nodes_addText st pending⟩
    rw [List.flatMap_nil, List.append_nil, run, hst, find_of_not_mem hpending]
    rfl
  | cons p ps ih =>
    have hrest : ∀ q ∈ ps, q.IsPlain := fun q hq => hps q (List.mem_cons_of_mem _ hq)
    have hp : p.IsPlain := hps p List.mem_cons_self
    cases p with
    | text s =>
      -- text opens no tag, so it waits with what is pending for the tag that comes next
      have hboth : '\x7b' ∉ pending ++ s.toList := by
        rw [List.mem_append, not_or]
        exact ⟨hpending, hp⟩
      rw [List.flatMap_cons, Piece.source, ← List.append_assoc] at hfuel ⊢
      exact ih hrest fuel hboth hst hfuel
    | tag n =>
      obtain ⟨hne, hname⟩ := hp
      have hchars : n.toList ≠ [] := by simpa using hne
      obtain ⟨fuel, rfl⟩ := Nat.exists_eq_succ_of_ne_zero (Nat.ne_zero_of_lt hfuel)
      obtain ⟨before, startsLine, blanks, hsplit, hfind⟩ :=
        find_tag hpending hchars hname (ps.flatMap Piece.source) st.atStart
      have hsource : pending ++ (Piece.tag n :: ps).flatMap Piece.source =
          pending ++ '\x7b' :: '\x7b' ::
            (n.toList ++ '\x7d' :: '\x7d' :: ps.flatMap Piece.source) := by
        simp [Piece.source]
      have hless : ([] ++ ps.flatMap Piece.source).length < fuel := by
        rw [hsource] at hfuel
        simp only [List.length_append, List.length_cons, List.length_nil] at hfuel ⊢
        omega
      rw [hsource, run, hst, hfind]
      let next : State := { st.addText (before ++ blanks) with
        atStart := startsAfter (ps.flatMap Piece.source) (ps.flatMap Piece.source) }.add
          (.variable (String.ofList n.toList))
      have hnext : next.delimiters = .standard := (delimiters_addText st _).trans hst
      obtain ⟨st', hrun, hnodes⟩ := ih hrest fuel List.not_mem_nil hnext hless
      refine ⟨st', ?_, ?_⟩
      · dsimp only
        rw [step_variable]
        exact hrun
      · rw [hnodes, nodes]
        simp [next, State.add, nodes_addText, hsplit]

/-- The variables of a plain template are found, with the text between them. -/
theorem parse_template {ps : List Piece} (hps : ∀ p ∈ ps, p.IsPlain) :
    parse (Piece.template ps) = .ok (nodes [] ps) := by
  have hstart : State.delimiters {} = .standard := rfl
  obtain ⟨st', hrun, hnodes⟩ := run_pieces hps (ps.flatMap Piece.source).length
    ((ps.flatMap Piece.source).length + 1) List.not_mem_nil hstart (Nat.lt_succ_self _)
  rw [List.nil_append] at hrun
  unfold parse Piece.template
  rw [String.toList_ofList]
  dsimp only
  rw [hrun]
  simp [hnodes, pure, Except.pure, bind, Except.bind]

/-! ## Filling in -/

theorem resolve?_name {name : String} (hne : name ≠ "")
    (hname : ∀ c ∈ name.toList, isNameChar c = true) (table : Bindings String) (focus : Focus) :
    resolve? table focus name = (table.get? name).map .text := by
  have hpoint : name.toList.contains '.' = false := by
    rw [List.contains_eq_mem, decide_eq_false_iff_not]
    exact fun hmem => ne_of_isNameChar (hname _ hmem) (d := '.') (by simp) rfl
  have hne' : name ≠ "." := by
    rintro rfl
    cases hpoint
  rw [resolve?, if_neg hne', hpoint]
  rfl

theorem renderAll_literals (table : Bindings String) (focus : Focus) (pending : List Char)
    (rest : List Node) :
    renderAll table focus (literals pending ++ rest) =
      (renderAll table focus rest).map (String.ofList pending ++ ·) := by
  rw [literals]
  split
  · next hempty =>
    rw [List.isEmpty_iff.mp hempty, List.nil_append]
    cases renderAll table focus rest <;> simp [Except.map]
  · rw [List.singleton_append, renderAll, render]
    rfl

theorem renderAll_nodes {table : Bindings String} {ps : List Piece}
    (hps : ∀ p ∈ ps, p.IsPlain) (focus : Focus) (pending : List Char) :
    renderAll table focus (nodes pending ps) =
      ((Piece.joined table.get? ps).map (String.ofList pending ++ ·)).mapError .missing := by
  induction ps generalizing pending with
  | nil =>
    have hlast := renderAll_literals table focus pending []
    rw [List.append_nil, renderAll] at hlast
    exact hlast
  | cons p ps ih =>
    have hrest := ih fun q hq => hps q (List.mem_cons_of_mem _ hq)
    cases p with
    | text s =>
      rw [nodes, hrest, Piece.joined, Piece.filled, String.ofList_append, String.ofList_toList]
      cases Piece.joined table.get? ps with
      | ok rest => exact congrArg Except.ok String.append_assoc
      | error name => rfl
    | tag n =>
      obtain ⟨hne, hname⟩ : (Piece.tag n).IsPlain := hps _ List.mem_cons_self
      rw [nodes, renderAll_literals, renderAll, render, resolve?_name hne hname, hrest,
        Piece.joined, Piece.filled]
      cases table.get? n with
      | none => rfl
      | some s =>
        cases Piece.joined table.get? ps with
        | ok rest =>
          show Except.ok (String.ofList pending ++ (s ++ (String.ofList [] ++ rest))) = _
          rw [String.ofList_nil, String.empty_append]
          rfl
        | error name => rfl

/-- A plain template becomes the texts of its pieces, or misses the first name that has none. -/
theorem fill_template {ps : List Piece} (hps : ∀ p ∈ ps, p.IsPlain) (table : Bindings String) :
    fill (Piece.template ps) table =
      (Piece.joined table.get? ps).mapError fun name => .render (.missing name) := by
  rw [fill, parse_template hps]
  dsimp only
  rw [renderAll_nodes hps]
  cases Piece.joined table.get? ps with
  | ok text => exact congrArg Except.ok String.empty_append
  | error name => rfl

end TreeScript.Template
