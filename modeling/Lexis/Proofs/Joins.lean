/-
# Joined spans

Joining two spans looks at offsets only, and keeps one end of each.  That it is always
possible for tokens in their order, and gives the text from the first of them to the last, is
due to the row of all pieces of a text (`Source.row`): tokens and trivia stand one behind
the other without a gap, the end of the input last.

The pieces between two of a row are a row again, which leads from the start of the one to the
end of the other (`Chains.filter_from`, `Chains.filter_upto`).  They are the tokens from the
one to the other and the trivia that lie between these (`Source.perm_piecesBetween`), and what
they cover together is what the join covers (`Source.exists_slices_of_chains`).
-/

import Lexis.Proofs.Tiling

namespace Lexis

/-! ### Spans one behind the other -/

/-- **The spans lead from the offset `start` to the offset `stop`:** each begins where the one
before it ends. -/
def Chains (start : Nat) : List Span → Nat → Prop
  | [], stop => start = stop
  | s :: ss, stop => s.start.offset = start ∧ Chains s.stop.offset ss stop

theorem Tiles.chains {a b : Nat} {ss : List Span} (h : Tiles a ss b) : Chains a ss b := by
  induction ss generalizing a with
  | nil => exact h
  | cons s ss ih => exact ⟨h.1, ih h.2.2⟩

namespace Chains

variable {a b c : Nat} {ss ts : List Span} {x : Span}

theorem append (hs : Chains a ss b) (ht : Chains b ts c) : Chains a (ss ++ ts) c := by
  induction ss generalizing a with
  | nil => obtain rfl : a = b := hs; exact ht
  | cons s ss ih => exact ⟨hs.1, ih hs.2⟩

/-- From one of its spans on a row leads from there to where it has led. -/
theorem filter_from (h : Chains a ss b) (hbefore : ss.Pairwise Span.Before) (hx : x ∈ ss) :
    Chains x.start.offset (ss.filter fun s => decide (x.start.offset ≤ s.start.offset)) b := by
  induction ss generalizing a with
  | nil => simp at hx
  | cons s ss ih =>
    obtain ⟨hfirst, hrest⟩ := List.pairwise_cons.1 hbefore
    rcases List.mem_cons.1 hx with rfl | hx
    · rw [List.filter_eq_self.2]
      · exact ⟨rfl, h.2⟩
      · refine List.forall_mem_cons.2 ⟨by simp, fun t ht => ?_⟩
        exact decide_eq_true (Nat.le_of_lt (hfirst t ht).1)
    · have hlt := (hfirst x hx).1
      rw [List.filter_cons_of_neg (by rw [decide_eq_true_eq]; omega)]
      exact ih h.2 hrest hx

/-- Up to one of its spans a row leads from where it has led to there. -/
theorem filter_upto (h : Chains a ss b) (hbefore : ss.Pairwise Span.Before) (hx : x ∈ ss) :
    Chains a (ss.filter fun s => decide (s.start.offset ≤ x.start.offset)) x.stop.offset := by
  induction ss generalizing a with
  | nil => simp at hx
  | cons s ss ih =>
    obtain ⟨hfirst, hrest⟩ := List.pairwise_cons.1 hbefore
    rcases List.mem_cons.1 hx with rfl | hx
    · rw [List.filter_cons_of_pos (by simp), List.filter_eq_nil_iff.2]
      · exact ⟨h.1, rfl⟩
      · intro t ht
        have hlt := (hfirst t ht).1
        rw [decide_eq_true_eq]
        omega
    · have hlt := (hfirst x hx).1
      rw [List.filter_cons_of_pos (by rw [decide_eq_true_eq]; omega)]
      exact ⟨h.1, ih h.2 hrest hx⟩

end Chains

/-! ### Parts of an ascending list -/

section Ascending

variable {α : Type} {f : α → Nat} {l : List α} {i : Nat} {x : α}

/-- In an ascending list what is not less than an item comes from it on. -/
theorem filter_le_eq_drop (h : l.Pairwise fun y z => f y < f z) (hx : l[i]? = some x) :
    l.filter (fun y => decide (f x ≤ f y)) = l.drop i := by
  induction l generalizing i with
  | nil => simp at hx
  | cons y l ih =>
    obtain ⟨hfirst, hrest⟩ := List.pairwise_cons.1 h
    cases i with
    | zero =>
      obtain rfl : y = x := by simpa using hx
      refine List.filter_eq_self.2 (List.forall_mem_cons.2 ⟨by simp, fun z hz => ?_⟩)
      exact decide_eq_true (Nat.le_of_lt (hfirst z hz))
    | succ i =>
      rw [List.getElem?_cons_succ] at hx
      have hlt := hfirst x (List.mem_of_getElem? hx)
      rw [List.filter_cons_of_neg (by rw [decide_eq_true_eq]; omega), ih hrest hx,
        List.drop_succ_cons]

/-- In an ascending list what is not greater than an item comes up to it. -/
theorem filter_ge_eq_take (h : l.Pairwise fun y z => f y < f z) (hx : l[i]? = some x) :
    l.filter (fun y => decide (f y ≤ f x)) = l.take (i + 1) := by
  induction l generalizing i with
  | nil => simp at hx
  | cons y l ih =>
    obtain ⟨hfirst, hrest⟩ := List.pairwise_cons.1 h
    cases i with
    | zero =>
      obtain rfl : y = x := by simpa using hx
      rw [List.filter_cons_of_pos (by simp), List.filter_eq_nil_iff.2]
      · rfl
      · intro z hz
        have hlt := hfirst z hz
        rw [decide_eq_true_eq]
        omega
    | succ i =>
      rw [List.getElem?_cons_succ] at hx
      have hlt := hfirst x (List.mem_of_getElem? hx)
      rw [List.filter_cons_of_pos (by rw [decide_eq_true_eq]; omega), ih hrest hx,
        List.take_succ_cons]

end Ascending

/-! ### The row of all pieces -/

namespace Source

variable {s : Source} {a c : Span} {i k : Nat} {x y : Token}

/-- **All pieces of the text** in source order, the end of the input last. -/
def row (s : Source) : List Span :=
  (Reader.ofSource s).ahead Lexeme.pieces ++ [Span.empty (Reader.ofSource s).toEnd.position]

theorem chains_row (s : Source) : Chains 0 s.row s.size :=
  s.tiles_pieces.chains.append ⟨s.offset_toEnd, s.offset_toEnd⟩

theorem pairwise_row (s : Source) : s.row.Pairwise Span.Before :=
  s.tiles_pieces.pairwise_concat s.offset_toEnd (List.Sublist.refl _)

/-- The row holds the tokens, the end of the input included, and the trivia. -/
theorem perm_row (s : Source) :
    (s.scan.1.map Token.span ++ s.trivia.map Trivia.span).Perm s.row := by
  rw [scan_fst, List.map_append, List.append_assoc]
  refine (List.perm_append_comm.append_left _).trans ?_
  rw [← List.append_assoc]
  exact s.perm_pieces.append_right _

theorem mem_row_of_mem_scan (hx : x ∈ s.scan.1) : x.span ∈ s.row :=
  s.perm_row.subset (List.mem_append_left _ (List.mem_map_of_mem hx))

/-- Tokens stand in source order, the end of the input last. -/
theorem pairwise_scan (s : Source) :
    s.scan.1.Pairwise fun x y => x.span.Before y.span := by
  rw [← List.pairwise_map, scan_fst, List.map_append]
  exact s.tiles_pieces.pairwise_concat s.offset_toEnd s.tokens_sublist_pieces

/-- A token and a trivia stand one before the other. -/
theorem before_or_before {t : Trivia} (hx : x ∈ s.scan.1) (ht : t ∈ s.trivia) :
    x.span.Before t.span ∨ t.span.Before x.span := by
  have hall : (s.scan.1.map Token.span ++ s.trivia.map Trivia.span).Pairwise
      fun a b => a.Before b ∨ b.Before a :=
    (s.perm_row.pairwise_iff fun h => h.symm).2 (s.pairwise_row.imp fun h => Or.inl h)
  exact (List.pairwise_append.1 hall).2.2 _ (List.mem_map_of_mem hx) _ (List.mem_map_of_mem ht)

/-- What lies between places of the text can be cut out of it. -/
theorem Locates.exists_slice? (h : s.Locates a) : ∃ text, s.slice? a = some text := by
  obtain ⟨front, rest, htext, hfront⟩ := exists_front_of_positionAt h.1
  obtain ⟨front', rest', htext', hfront'⟩ := exists_front_of_positionAt h.2
  have hordered := a.ordered
  obtain ⟨run, rfl, rfl⟩ := Text.exists_run_of_byteLength_le (htext.symm.trans htext') (by omega)
  refine ⟨run, Text.slice?_eq_some_iff.2 ⟨front, rest', by rw [htext', List.append_assoc], ?_, ?_⟩⟩
  · exact hfront
  · rw [← hfront', Text.byteLength_append]

theorem exists_slice?_of_mem_row (ha : a ∈ s.row) : ∃ text, s.slice? a = some text := by
  rcases List.mem_append.1 (s.perm_row.symm.subset ha) with ha | ha
  · obtain ⟨t, ht, rfl⟩ := List.mem_map.1 ha
    exact (locates_of_mem_scan ht).exists_slice?
  · obtain ⟨t, ht, rfl⟩ := List.mem_map.1 ha
    exact (locates_of_mem_trivia ht).exists_slice?

/-- **What spans one behind the other cover** is what each of them covers, put together. -/
theorem exists_slices_of_chains {start stop : Nat} {ss : List Span} (h : Chains start ss stop)
    (hne : ss ≠ []) (hall : ∀ a ∈ ss, ∃ text, s.slice? a = some text) :
    ∃ texts, List.Forall₂ (fun a text => s.slice? a = some text) ss texts ∧
      Text.slice? start stop s.text = some texts.flatten := by
  induction ss generalizing start with
  | nil => exact absurd rfl hne
  | cons a ss ih =>
    obtain ⟨⟨text, htext⟩, hrest⟩ := List.forall_mem_cons.1 hall
    obtain ⟨rfl, hchain⟩ := h
    by_cases hss : ss = []
    · subst hss
      obtain rfl : a.stop.offset = stop := hchain
      exact ⟨[text], .cons htext .nil, by rw [List.flatten_singleton]; exact htext⟩
    · obtain ⟨texts, htexts, hslice⟩ := ih hchain hss hrest
      exact ⟨text :: texts, .cons htext htexts, Text.slice?_append htext hslice⟩

/-! ### The pieces between two tokens -/

/-- **The tokens from the number `i` to the number `k`,** both included. -/
def tokensFromTo (s : Source) (i k : Nat) : List Token := (s.scan.1.take (k + 1)).drop i

/-- **The trivia between two spans.** -/
def triviaBetween (s : Source) (a c : Span) : List Trivia :=
  s.trivia.filter fun t =>
    decide (a.stop.offset ≤ t.span.start.offset ∧ t.span.stop.offset ≤ c.start.offset)

/-- The pieces of the row from one to another. -/
def piecesBetween (s : Source) (a c : Span) : List Span :=
  (s.row.filter fun b => decide (b.start.offset ≤ c.start.offset)).filter
    fun b => decide (a.start.offset ≤ b.start.offset)

theorem pairwise_piecesBetween (s : Source) (a c : Span) :
    (s.piecesBetween a c).Pairwise Span.Before :=
  (s.pairwise_row.filter _).filter _

theorem chains_piecesBetween (ha : a ∈ s.row) (hc : c ∈ s.row)
    (hac : a.start.offset ≤ c.start.offset) :
    Chains a.start.offset (s.piecesBetween a c) c.stop.offset :=
  (s.chains_row.filter_upto s.pairwise_row hc).filter_from (s.pairwise_row.filter _)
    (List.mem_filter.2 ⟨ha, decide_eq_true hac⟩)

theorem tokensFromTo_eq_filter (hx : s.scan.1[i]? = some x) (hy : s.scan.1[k]? = some y)
    (hik : i ≤ k) :
    s.tokensFromTo i k =
      (s.scan.1.filter fun t => decide (t.span.start.offset ≤ y.span.start.offset)).filter
        fun t => decide (x.span.start.offset ≤ t.span.start.offset) := by
  have hascends : s.scan.1.Pairwise fun t u => t.span.start.offset < u.span.start.offset :=
    s.pairwise_scan.imp fun h => h.1
  have hfront : (s.scan.1.take (k + 1))[i]? = some x := by
    rw [List.getElem?_take_of_lt (by omega), hx]
  rw [filter_ge_eq_take (f := fun t : Token => t.span.start.offset) hascends hy,
    filter_le_eq_drop (f := fun t : Token => t.span.start.offset)
      (hascends.sublist (List.take_sublist _ _)) hfront, tokensFromTo]

theorem triviaBetween_eq_filter (hx : x ∈ s.scan.1) (hy : y ∈ s.scan.1) :
    s.triviaBetween x.span y.span =
      (s.trivia.filter fun t => decide (t.span.start.offset ≤ y.span.start.offset)).filter
        fun t => decide (x.span.start.offset ≤ t.span.start.offset) := by
  rw [List.filter_filter, triviaBetween]
  refine List.filter_congr fun t ht => ?_
  have hleft := before_or_before hx ht
  have hright := before_or_before hy ht
  have hordered := x.span.ordered
  have hordered' := t.span.ordered
  rw [← Bool.decide_and, decide_eq_decide]
  unfold Span.Before at hleft hright
  omega

/-- **The pieces between two tokens** are the tokens from the one to the other and the trivia
between them, in another order. -/
theorem perm_piecesBetween (hx : s.scan.1[i]? = some x) (hy : s.scan.1[k]? = some y)
    (hik : i ≤ k) :
    ((s.tokensFromTo i k).map Token.span ++
      (s.triviaBetween x.span y.span).map Trivia.span).Perm (s.piecesBetween x.span y.span) := by
  have hperm := (s.perm_row.filter fun b => decide (b.start.offset ≤ y.span.start.offset)).filter
    fun b => decide (x.span.start.offset ≤ b.start.offset)
  rw [List.filter_append, List.filter_append] at hperm
  simp only [List.filter_map] at hperm
  rw [tokensFromTo_eq_filter hx hy hik,
    triviaBetween_eq_filter (List.mem_of_getElem? hx) (List.mem_of_getElem? hy)]
  exact hperm

/-- Sorted by their start, the tokens from one to another and the trivia between the two are the
pieces of the row. -/
theorem mergeSort_eq_piecesBetween (hx : s.scan.1[i]? = some x) (hy : s.scan.1[k]? = some y)
    (hik : i ≤ k) :
    ((s.tokensFromTo i k).map Token.span ++
      (s.triviaBetween x.span y.span).map Trivia.span).mergeSort Span.startsFirst =
        s.piecesBetween x.span y.span :=
  mergeSort_eq_of_pairwise (s.pairwise_piecesBetween _ _) (perm_piecesBetween hx hy hik)

/-- Of two tokens the one with the smaller number stands before the other. -/
theorem before_of_getElem? (hx : s.scan.1[i]? = some x) (hy : s.scan.1[k]? = some y)
    (hik : i < k) : x.span.Before y.span := by
  obtain ⟨hi, rfl⟩ := List.getElem?_eq_some_iff.1 hx
  obtain ⟨hk, rfl⟩ := List.getElem?_eq_some_iff.1 hy
  exact List.pairwise_iff_getElem.1 s.pairwise_scan i k hi hk hik

theorem start_le_of_getElem? (hx : s.scan.1[i]? = some x) (hy : s.scan.1[k]? = some y)
    (hik : i ≤ k) : x.span.start.offset ≤ y.span.start.offset := by
  rcases Nat.lt_or_eq_of_le hik with hlt | rfl
  · exact Nat.le_of_lt (before_of_getElem? hx hy hlt).1
  · obtain rfl := Option.some.inj (hx.symm.trans hy)
    exact Nat.le_refl _

/-- From a token to the one after it there are these two. -/
theorem tokensFromTo_succ (hx : s.scan.1[i]? = some x) (hy : s.scan.1[i + 1]? = some y) :
    s.tokensFromTo i (i + 1) = [x, y] := by
  obtain ⟨hi, rfl⟩ := List.getElem?_eq_some_iff.1 hx
  obtain ⟨hk, rfl⟩ := List.getElem?_eq_some_iff.1 hy
  have hlength : (s.scan.1.take (i + 1 + 1)).length = i + 1 + 1 := List.length_take_of_le hk
  rw [tokensFromTo, List.drop_eq_getElem_cons (by omega), List.drop_eq_getElem_cons (by omega),
    List.drop_of_length_le (Nat.le_of_eq hlength), List.getElem_take, List.getElem_take]

/-- **A token begins where an earlier one ends** if it comes next and nothing lies between. -/
theorem start_eq_stop_iff (hx : s.scan.1[i]? = some x) (hy : s.scan.1[k]? = some y)
    (hik : i < k) :
    y.span.start.offset = x.span.stop.offset ↔
      k = i + 1 ∧ s.triviaBetween x.span y.span = [] := by
  have hxy := before_of_getElem? hx hy hik
  constructor
  · intro hstart
    refine ⟨Nat.le_antisymm (Nat.le_of_not_lt fun hlt => ?_) hik, ?_⟩
    · -- a token between the two would begin before the end of the first
      obtain ⟨hk, -⟩ := List.getElem?_eq_some_iff.1 hy
      have hbetween := List.getElem?_eq_getElem (l := s.scan.1) (i := i + 1) (by omega)
      have hleft := (before_of_getElem? hx hbetween (Nat.lt_succ_self i)).2
      have hright := (before_of_getElem? hbetween hy hlt).1
      omega
    · refine List.filter_eq_nil_iff.2 fun t ht => ?_
      have hbefore := before_or_before (List.mem_of_getElem? hy) ht
      have hordered := t.span.ordered
      rw [decide_eq_true_eq]
      unfold Span.Before at hbefore
      omega
  · rintro ⟨rfl, htrivia⟩
    have hpieces := mergeSort_eq_piecesBetween hx hy (Nat.le_succ i)
    have hpair : [x.span, y.span].Pairwise Span.Before := by simpa using hxy
    rw [tokensFromTo_succ hx hy, htrivia, List.map_nil, List.append_nil, List.map_cons,
      List.map_singleton, mergeSort_eq_of_pairwise hpair (List.Perm.refl _)] at hpieces
    have hchain := chains_piecesBetween (mem_row_of_mem_scan (List.mem_of_getElem? hx))
      (mem_row_of_mem_scan (List.mem_of_getElem? hy)) (Nat.le_of_lt hxy.1)
    rw [← hpieces] at hchain
    exact hchain.2.1

end Source

/-! ### Joins -/

namespace Span

variable {a c : Span}

/-- Spans are joined if the second does not end before the first begins. -/
theorem join?_of_le (h : a.start.offset ≤ c.stop.offset) :
    a.join? c = some ⟨a.start, c.stop, h⟩ :=
  dif_pos h

theorem isSome_join?_iff : (a.join? c).isSome = true ↔ a.start.offset ≤ c.stop.offset := by
  unfold join? ofEnds?
  split <;> simp_all

end Span

/-- **How three tokens of a source are joined** that come one after the other or are the same, the
first with the number `i` and the last with the number `k`. -/
structure Source.JoinsTokens (s : Source) (i k : Nat) (x y z : Token) (span : Span)
    (texts : List (List Char)) : Prop where
  /-- The first can be joined with the last. -/
  join : x.span.join? z.span = some span
  /-- It comes to the same to join the first two and then the last … -/
  join_left : (x.span.join? y.span).bind (fun xy => xy.join? z.span) = some span
  /-- … or the first with the join of the other two. -/
  join_right : (y.span.join? z.span).bind (fun yz => x.span.join? yz) = some span
  /-- The texts are those of the tokens from the first to the last and of the trivia between
  these, in source order. -/
  pieces : List.Forall₂ (fun piece text => s.slice? piece = some text)
    (((s.tokensFromTo i k).map Token.span ++
      (s.triviaBetween x.span z.span).map Trivia.span).mergeSort Span.startsFirst) texts
  /-- Together they are what the join covers. -/
  slice : s.slice? span = some texts.flatten
  /-- Of two tokens the last can be joined with the first if it begins where that one ends. -/
  isSome_back : i < k →
    ((z.span.join? x.span).isSome = true ↔ z.span.start.offset = x.span.stop.offset)
  /-- Then the two are neighbours, without trivia between them … -/
  neighbours : i < k → (z.span.start.offset = x.span.stop.offset ↔
    k = i + 1 ∧ s.triviaBetween x.span z.span = [])
  /-- … and the join is empty. -/
  isEmpty_back : i < k → ∀ back, z.span.join? x.span = some back → back.isEmpty = true

/-- **The join of tokens is the text from the first of them to the last.**  Let three tokens of a
complete scan come one after the other, the end of the input counting among them, or be the
same.  The first can be joined with the last, in one step or by way of the one between
them, and what the join covers is the tokens from the first to the last and the trivia
between them, put together.  The last can be joined with an earlier one only where both
meet. -/
theorem token_spans_join (s : Source) {i j k : Nat} {x y z : Token} (hij : i ≤ j) (hjk : j ≤ k)
    (hx : s.scan.1[i]? = some x) (hy : s.scan.1[j]? = some y) (hz : s.scan.1[k]? = some z) :
    ∃ span texts, s.JoinsTokens i k x y z span texts := by
  have hxy := Source.start_le_of_getElem? hx hy hij
  have hyz := Source.start_le_of_getElem? hy hz hjk
  have hxz := Nat.le_trans hxy hyz
  have hik := Nat.le_trans hij hjk
  have hyOrdered := y.span.ordered
  have hzOrdered := z.span.ordered
  have hx' := Source.mem_row_of_mem_scan (List.mem_of_getElem? hx)
  have hz' := Source.mem_row_of_mem_scan (List.mem_of_getElem? hz)
  have hmem : x.span ∈ s.piecesBetween x.span z.span :=
    List.mem_filter.2 ⟨List.mem_filter.2 ⟨hx', decide_eq_true hxz⟩, by simp⟩
  obtain ⟨texts, htexts, hslice⟩ := Source.exists_slices_of_chains
    (Source.chains_piecesBetween hx' hz' hxz) (List.ne_nil_of_mem hmem) fun a ha =>
      Source.exists_slice?_of_mem_row (List.mem_of_mem_filter (List.mem_of_mem_filter ha))
  refine ⟨⟨x.span.start, z.span.stop, by omega⟩, texts, ?_⟩
  exact {
    join := Span.join?_of_le _
    join_left := by
      rw [Span.join?_of_le (by omega), Option.bind_some]
      exact Span.join?_of_le _
    join_right := by
      rw [Span.join?_of_le (by omega), Option.bind_some]
      exact Span.join?_of_le _
    pieces := by
      rw [Source.mergeSort_eq_piecesBetween hx hz hik]
      exact htexts
    slice := hslice
    isSome_back := fun hlt => by
      have hbefore := (Source.before_of_getElem? hx hz hlt).2
      rw [Span.isSome_join?_iff]
      omega
    neighbours := Source.start_eq_stop_iff hx hz
    isEmpty_back := fun hlt back hback => by
      have hbefore := (Source.before_of_getElem? hx hz hlt).2
      obtain ⟨hstart, hstop⟩ := Span.ofEnds?_eq_some_iff.1 hback
      rw [Span.isEmpty, Span.length, ← hstart, ← hstop, beq_iff_eq]
      omega }

/-- Two tokens that meet and, behind a comment, the end of the input. -/
theorem token_spans_join_call :
    ∃ x y z, 0 ≤ 1 ∧ 1 ≤ 2 ∧ (Source.ofString "a" "f( /**/").scan.1[0]? = some x ∧
      (Source.ofString "a" "f( /**/").scan.1[1]? = some y ∧
      (Source.ofString "a" "f( /**/").scan.1[2]? = some z ∧
      ∃ span texts, (Source.ofString "a" "f( /**/").JoinsTokens 0 2 x y z span texts := by
  have hlength : (Source.ofString "a" "f( /**/").scan.1.length = 3 := by decide +kernel
  have hx := List.getElem?_eq_getElem
    (show 0 < (Source.ofString "a" "f( /**/").scan.1.length by omega)
  have hy := List.getElem?_eq_getElem
    (show 1 < (Source.ofString "a" "f( /**/").scan.1.length by omega)
  have hz := List.getElem?_eq_getElem
    (show 2 < (Source.ofString "a" "f( /**/").scan.1.length by omega)
  exact ⟨_, _, _, by decide, by decide, hx, hy, hz,
    token_spans_join _ (by decide) (by decide) hx hy hz⟩

end Lexis
