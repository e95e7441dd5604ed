import Mathlib.Data.List.TakeWhile
import ScriptTree.Proofs.Lexer.Standing
import ScriptTree.Proofs.NodePointers
import ScriptTree.Proofs.Tiling

/-!
The tokens at an offset. The tokens of a node lie side by side, so an offset within the node lies
inside one of them or where two of them meet, and a search tells which, if all of them but the last
have characters or layout. The end of a text comes last and has neither, unless there is no other
token, so at that offset a search from the root passes by the token that meets it.
-/

namespace ScriptTree

namespace Tree

def Touches (tree : Tree) (id : NodeId) (offset : Nat) (token : TokenId) : Prop :=
  token ∈ tree.tokensBelow id ∧
    (tree.leafSpan token).start ≤ offset ∧ offset ≤ (tree.leafSpan token).stop

/-- Two tokens of a node follow each other, and one stops at an offset where the other starts. -/
def Meet (tree : Tree) (id : NodeId) (offset : Nat) (left right : TokenId) : Prop :=
  left ∈ tree.tokensBelow id ∧ right ∈ tree.tokensBelow id ∧ right = left + 1 ∧
    (tree.leafSpan left).stop = offset ∧ (tree.leafSpan right).start = offset

instance (tree : Tree) (id : NodeId) (offset : Nat) (left right : TokenId) :
    Decidable (tree.Meet id offset left right) :=
  inferInstanceAs (Decidable (_ ∧ _))

/-- What is found at an offset: nothing outside the node, two tokens where they meet, and elsewhere
the only one that touches the offset. -/
structure PinsTokens (tree : Tree) (id : NodeId) (offset : Nat) : Prop where
  outside : tree.tokensAt id offset = .none ↔
    offset < (tree.nodeSpan id).start ∨ (tree.nodeSpan id).stop < offset
  between : ∀ left right,
    tree.tokensAt id offset = .between left right ↔ tree.Meet id offset left right
  single : ∀ token, tree.tokensAt id offset = .single token →
    tree.Touches id offset token ∧ ∀ other, tree.Touches id offset other → other = token

variable {tree : Tree} {whole : Shape} {id : NodeId} {first last offset : Nat}

theorem Houses.leafSpan_eq (h : tree.Houses whole) {token : TokenId}
    (htoken : token < tree.leafCount) :
    tree.leafSpan token = ⟨tree.reached token, tree.reached (token + 1)⟩ :=
  h.elementSpan_eq (show tree.Has (.token token) from htoken)

/-- Outside a node nothing is found. -/
theorem tokensAt_outside
    (h : offset < (tree.nodeSpan id).start ∨ (tree.nodeSpan id).stop < offset) :
    tree.tokensAt id offset = .none := by
  have hguard : (decide (offset < (tree.nodeSpan id).start) ||
      decide ((tree.nodeSpan id).stop < offset)) = true := by
    simpa using h
  rw [tokensAt, if_pos hguard]

namespace PinsTokens

theorem of_none
    (hoffset : offset < (tree.nodeSpan id).start ∨ (tree.nodeSpan id).stop < offset)
    (hmeet : ∀ left right, ¬ tree.Meet id offset left right) : tree.PinsTokens id offset := by
  have hfound := tokensAt_outside hoffset
  refine ⟨iff_of_true hfound hoffset, fun left right => iff_of_false (fun hbetween => ?_)
    (hmeet left right), fun token hsingle => ?_⟩
  · cases hfound.symm.trans hbetween
  · cases hfound.symm.trans hsingle

/-- One token is found, and there is one to be found. -/
theorem of_single {token : TokenId} (hfound : tree.tokensAt id offset = .single token)
    (hoffset : ¬ (offset < (tree.nodeSpan id).start ∨ (tree.nodeSpan id).stop < offset))
    (hmeet : ∀ left right, ¬ tree.Meet id offset left right)
    (htouches : tree.Touches id offset token)
    (hsole : ∀ other, tree.Touches id offset other → other = token) :
    tree.PinsTokens id offset := by
  refine ⟨iff_of_false (fun hnone => ?_) hoffset, fun left right =>
    iff_of_false (fun hbetween => ?_) (hmeet left right), fun other hsingle => ?_⟩
  · cases hfound.symm.trans hnone
  · cases hfound.symm.trans hbetween
  · obtain rfl := TokensAt.single.inj (hfound.symm.trans hsingle)
    exact ⟨htouches, hsole⟩

/-- Two tokens are found, and there are two that meet. -/
theorem of_between {left right : TokenId} (hfound : tree.tokensAt id offset = .between left right)
    (hoffset : ¬ (offset < (tree.nodeSpan id).start ∨ (tree.nodeSpan id).stop < offset))
    (hmeet : tree.Meet id offset left right)
    (hsole : ∀ left' right', tree.Meet id offset left' right' → left' = left ∧ right' = right) :
    tree.PinsTokens id offset := by
  refine ⟨iff_of_false (fun hnone => ?_) hoffset,
    fun left' right' => ⟨fun hbetween => ?_, fun hmeet' => ?_⟩, fun other hsingle => ?_⟩
  · cases hfound.symm.trans hnone
  · obtain ⟨rfl, rfl⟩ := TokensAt.between.inj (hfound.symm.trans hbetween)
    exact hmeet
  · obtain ⟨rfl, rfl⟩ := hsole left' right' hmeet'
    exact hfound
  · cases hfound.symm.trans hsingle

end PinsTokens

namespace Ends

theorem leafSpan_eq (h : tree.Ends id first last) (hhouses : tree.Houses whole) {token : Nat}
    (hle : token ≤ last) :
    tree.leafSpan token = ⟨tree.reached token, tree.reached (token + 1)⟩ :=
  hhouses.leafSpan_eq (Nat.lt_of_le_of_lt hle h.lt)

/-- The tokens of a node that stop up to an offset come before those that go beyond it. -/
theorem exists_split (h : tree.Ends id first last) (hhouses : tree.Houses whole)
    (hstart : tree.reached first ≤ offset) :
    ∃ count ≤ last + 1 - first,
      (tree.tokensBelow id).takeWhile (fun token => decide ((tree.leafSpan token).stop ≤ offset)) =
        List.range' first count ∧
      (tree.tokensBelow id).dropWhile (fun token => decide ((tree.leafSpan token).stop ≤ offset)) =
        List.range' (first + count) (last + 1 - first - count) ∧
      tree.reached (first + count) ≤ offset ∧
      (count < last + 1 - first → offset < tree.reached (first + count + 1)) := by
  have hle := h.le
  have htokens : tree.tokensBelow id = List.range' first (last + 1 - first) := by
    rw [tokensBelow, h.run, Run.positions]
  obtain ⟨count, hcount, hbefore, hbehind⟩ := List.range'_eq_append_iff.mp
    ((List.takeWhile_append_dropWhile
      (p := fun token => decide ((tree.leafSpan token).stop ≤ offset))).trans htokens).symm
  rw [Nat.mul_one] at hbehind
  refine ⟨count, hcount, hbefore, hbehind, ?_, fun hless => ?_⟩
  · cases count with
    | zero => exact hstart
    | succ count =>
      have hmem : first + count ∈ List.range' first (count + 1) :=
        List.mem_range'_1.mpr ⟨by omega, by omega⟩
      have hstop := List.mem_takeWhile_imp (hbefore ▸ hmem)
      rw [h.leafSpan_eq hhouses (by omega)] at hstop
      exact of_decide_eq_true hstop
  · have hhead := List.head?_dropWhile_not
      (fun token => decide ((tree.leafSpan token).stop ≤ offset)) (tree.tokensBelow id)
    have hne : last + 1 - first - count ≠ 0 := by omega
    rw [hbehind, List.head?_range', if_neg hne] at hhead
    have hbeyond : ¬ (tree.leafSpan (first + count)).stop ≤ offset := of_decide_eq_false hhead
    rw [h.leafSpan_eq hhouses (by omega)] at hbeyond
    exact Nat.lt_of_not_le hbeyond

/-- Within a node, the search stops at the first token that goes beyond the offset, or behind the
last token if none does. -/
theorem exists_tokensAt (h : tree.Ends id first last) (hhouses : tree.Houses whole)
    (hid : id < tree.nodeCount) (hstart : tree.reached first ≤ offset)
    (hstop : offset ≤ tree.reached (last + 1)) :
    offset = tree.reached (last + 1) ∧ tree.tokensAt id offset = .single last ∨
      ∃ right, first ≤ right ∧ right ≤ last ∧
        tree.reached right ≤ offset ∧ offset < tree.reached (right + 1) ∧
        tree.tokensAt id offset =
          if first < right ∧ tree.reached right = offset then .between (right - 1) right
          else .single right := by
  have hle := h.le
  have hguard : ¬ (decide (offset < (tree.nodeSpan id).start) ||
      decide ((tree.nodeSpan id).stop < offset)) = true := by
    rw [show tree.nodeSpan id = ⟨tree.reached first, tree.reached (last + 1)⟩ from
      h.elementSpan_eq hhouses hid]
    simp only [Bool.or_eq_true, decide_eq_true_iff]
    omega
  obtain ⟨count, hcount, hbefore, hbehind, hreached, hbeyond⟩ := h.exists_split hhouses hstart
  simp only [tokensAt, if_neg hguard, drop_length_takeWhile, hbehind]
  simp only [hbefore, List.getLast?_range']
  rcases Nat.lt_or_eq_of_le hcount with hless | rfl
  · -- the first token behind those that stop up to the offset
    obtain ⟨spare, hspare⟩ : ∃ spare, last + 1 - first - count = spare + 1 :=
      Nat.exists_eq_succ_of_ne_zero (by omega)
    refine .inr ⟨first + count, by omega, by omega, hreached, hbeyond hless, ?_⟩
    rw [hspare, List.range'_succ]
    cases count with
    | zero => simp
    | succ count =>
      have hleft := h.leafSpan_eq hhouses (show first + count ≤ last by omega)
      have hright := h.leafSpan_eq hhouses (show first + (count + 1) ≤ last by omega)
      simp [hleft, hright, Nat.add_assoc]
  · have hall : first + (last + 1 - first) = last + 1 := by omega
    rw [hall] at hreached
    have hend : tree.reached (last + 1) = offset := Nat.le_antisymm hreached hstop
    have hne : last + 1 - first ≠ 0 := by omega
    have hlast : first + (last + 1 - first) - 1 = last := by omega
    refine .inl ⟨hend.symm, ?_⟩
    simp [hne, hlast, h.leafSpan_eq hhouses, hend]

/-- Tokens of a node meet where one follows the other and the first one reaches the offset. -/
theorem meet_iff (h : tree.Ends id first last) (hhouses : tree.Houses whole) {left right : Nat} :
    tree.Meet id offset left right ↔
      right = left + 1 ∧ first ≤ left ∧ right ≤ last ∧ tree.reached right = offset := by
  constructor
  · rintro ⟨hleft, hright, rfl, -, hstart⟩
    have hle := (h.mem_tokensBelow.mp hright).2
    rw [h.leafSpan_eq hhouses hle] at hstart
    exact ⟨rfl, (h.mem_tokensBelow.mp hleft).1, hle, hstart⟩
  · rintro ⟨rfl, hfirst, hlast, hoffset⟩
    refine ⟨h.mem_tokensBelow.mpr ⟨hfirst, Nat.le_of_succ_le hlast⟩,
      h.mem_tokensBelow.mpr ⟨Nat.le_succ_of_le hfirst, hlast⟩, rfl, ?_, ?_⟩
    · rw [h.leafSpan_eq hhouses (Nat.le_of_succ_le hlast)]
      exact hoffset
    · rw [h.leafSpan_eq hhouses hlast]
      exact hoffset

theorem touches_iff (h : tree.Ends id first last) (hhouses : tree.Houses whole) {token : Nat} :
    tree.Touches id offset token ↔
      first ≤ token ∧ token ≤ last ∧ tree.reached token ≤ offset ∧
        offset ≤ tree.reached (token + 1) := by
  rw [Touches, h.mem_tokensBelow, and_assoc]
  refine and_congr_right fun _ => and_congr_right fun hle => ?_
  rw [h.leafSpan_eq hhouses hle]

theorem outside_iff (h : tree.Ends id first last) (hhouses : tree.Houses whole)
    (hid : id < tree.nodeCount) :
    (offset < (tree.nodeSpan id).start ∨ (tree.nodeSpan id).stop < offset) ↔
      ¬ (tree.reached first ≤ offset ∧ offset ≤ tree.reached (last + 1)) := by
  have hspan : tree.nodeSpan id = ⟨tree.reached first, tree.reached (last + 1)⟩ :=
    h.elementSpan_eq hhouses hid
  simp only [hspan]
  omega

/-- Tokens of a node meet within it. -/
theorem pinsTokens_outside (h : tree.Ends id first last) (hhouses : tree.Houses whole)
    (hid : id < tree.nodeCount)
    (hoffset : offset < (tree.nodeSpan id).start ∨ (tree.nodeSpan id).stop < offset) :
    tree.PinsTokens id offset := by
  have hlt := h.lt
  refine .of_none hoffset fun left right hmeet => (h.outside_iff hhouses hid).mp hoffset ?_
  obtain ⟨rfl, hfirst, hlast, rfl⟩ := (h.meet_iff hhouses).mp hmeet
  exact ⟨hhouses.reached_mono (Nat.le_succ_of_le hfirst) (by omega),
    hhouses.reached_mono (Nat.le_succ_of_le hlast) hlt⟩

/-- If the last token goes up to the end from further in front, no other one touches the end. -/
theorem pinsTokens_end (h : tree.Ends id first last) (hhouses : tree.Houses whole)
    (hid : id < tree.nodeCount) (hoffset : offset = tree.reached (last + 1))
    (hfound : tree.tokensAt id offset = .single last)
    (hend : first < last → tree.reached last < offset) : tree.PinsTokens id offset := by
  have hle := h.le
  have hlt := h.lt
  have hfirst : tree.reached first ≤ offset := hoffset ▸ hhouses.reached_mono (by omega) hlt
  have hlast : tree.reached last ≤ offset := hoffset ▸ hhouses.reached_mono (by omega) hlt
  refine .of_single hfound ?_ (fun left right hmeet => ?_)
    ((h.touches_iff hhouses).mpr ⟨hle, Nat.le_refl _, hlast, Nat.le_of_eq hoffset⟩)
    fun other htouches => ?_
  · rw [h.outside_iff hhouses hid, not_not]
    exact ⟨hfirst, Nat.le_of_eq hoffset⟩
  · obtain ⟨rfl, hleft, hright, hreached⟩ := (h.meet_iff hhouses).mp hmeet
    have hmono := hhouses.reached_mono hright (Nat.le_of_lt hlt)
    have hless := hend (Nat.lt_of_le_of_lt hleft hright)
    omega
  · obtain ⟨hge, hle', -, hstop⟩ := (h.touches_iff hhouses).mp htouches
    by_contra hne
    have hbefore : other < last := Nat.lt_of_le_of_ne hle' hne
    have hmono := hhouses.reached_mono hbefore (Nat.le_of_lt hlt)
    have hless := hend (Nat.lt_of_le_of_lt hge hbefore)
    exact absurd (Nat.le_trans hstop hmono) (Nat.not_le.mpr hless)

section

variable {right : Nat} (h : tree.Ends id first last) (hhouses : tree.Houses whole)
  (hid : id < tree.nodeCount)
  (hfull : ∀ token, first ≤ token → token < last → tree.reached token < tree.reached (token + 1))
  (hfirst : first ≤ right) (hlast : right ≤ last)
  (hreached : tree.reached right ≤ offset) (hbeyond : offset < tree.reached (right + 1))

include h hhouses hlast hreached hbeyond

include hfull in
/-- Tokens meet only at the start of the first token that goes beyond the offset. -/
theorem right_eq_of_meet {left' right' : Nat} (hmeet : tree.Meet id offset left' right') :
    right' = right := by
  have hlt := h.lt
  obtain ⟨rfl, hleft, hright, hoffset⟩ := (h.meet_iff hhouses).mp hmeet
  by_contra hne
  rcases Nat.lt_or_gt_of_ne hne with hless | hmore
  · have hstep := hfull (left' + 1) (by omega) (by omega)
    have hmono := hhouses.reached_mono (show left' + 1 + 1 ≤ right from hless) (by omega)
    omega
  · have hmono := hhouses.reached_mono (show right + 1 ≤ left' + 1 from hmore) (by omega)
    omega

include hid hfirst

theorem not_outside :
    ¬ (offset < (tree.nodeSpan id).start ∨ (tree.nodeSpan id).stop < offset) := by
  have hlt := h.lt
  rw [h.outside_iff hhouses hid, not_not]
  exact ⟨Nat.le_trans (hhouses.reached_mono hfirst (by omega)) hreached,
    Nat.le_of_lt (Nat.lt_of_lt_of_le hbeyond (hhouses.reached_mono (by omega) hlt))⟩

include hfull

theorem pinsTokens_meeting (hmeeting : first < right ∧ tree.reached right = offset)
    (hfound : tree.tokensAt id offset = .between (right - 1) right) :
    tree.PinsTokens id offset := by
  refine .of_between hfound (h.not_outside hhouses hid hfirst hlast hreached hbeyond)
    ((h.meet_iff hhouses).mpr ⟨by omega, by omega, hlast, hmeeting.2⟩)
    fun left' right' hmeet => ?_
  obtain rfl := h.right_eq_of_meet hhouses hfull hlast hreached hbeyond hmeet
  obtain ⟨rfl, -⟩ := (h.meet_iff hhouses).mp hmeet
  exact ⟨rfl, rfl⟩

/-- Where no two tokens of the node meet at the offset, the one that was found is the only one
there. -/
theorem pinsTokens_sole (hsole : ¬ (first < right ∧ tree.reached right = offset))
    (hfound : tree.tokensAt id offset = .single right) : tree.PinsTokens id offset := by
  have hlt := h.lt
  refine .of_single hfound (h.not_outside hhouses hid hfirst hlast hreached hbeyond)
    (fun left' right' hmeet => ?_)
    ((h.touches_iff hhouses).mpr ⟨hfirst, hlast, hreached, Nat.le_of_lt hbeyond⟩)
    fun (other : Nat) htouches => ?_
  · obtain rfl := h.right_eq_of_meet hhouses hfull hlast hreached hbeyond hmeet
    obtain ⟨rfl, hleft, -, hoffset⟩ := (h.meet_iff hhouses).mp hmeet
    exact hsole ⟨Nat.lt_succ_of_le hleft, hoffset⟩
  · obtain ⟨hge, hle, hstart, hstop⟩ := (h.touches_iff hhouses).mp htouches
    by_contra hne
    rcases Nat.lt_or_gt_of_ne hne with hless | hmore
    · -- the token in front of it stops at the offset, and the two meet there
      have hmono := hhouses.reached_mono (show other + 1 ≤ right from hless) (by omega)
      exact hsole ⟨by omega, by omega⟩
    · have hmono := hhouses.reached_mono (show right + 1 ≤ other from hmore) (by omega)
      omega

end

/-- If a node has no empty token in front of its last one, what is found at an offset is what is
there, unless the node stops there with an empty token that another one meets. -/
theorem pinsTokens (h : tree.Ends id first last) (hhouses : tree.Houses whole)
    (hid : id < tree.nodeCount)
    (hfull : ∀ token, first ≤ token → token < last → tree.reached token < tree.reached (token + 1))
    (hend : offset = tree.reached (last + 1) → first < last → tree.reached last < offset) :
    tree.PinsTokens id offset := by
  by_cases hwithin : tree.reached first ≤ offset ∧ offset ≤ tree.reached (last + 1)
  · rcases h.exists_tokensAt hhouses hid hwithin.1 hwithin.2 with
      ⟨hoffset, hfound⟩ | ⟨right, hfirst, hlast, hreached, hbeyond, hfound⟩
    · exact h.pinsTokens_end hhouses hid hoffset hfound (hend hoffset)
    · split at hfound
      · next hmeeting =>
        exact h.pinsTokens_meeting hhouses hid hfull hfirst hlast hreached hbeyond hmeeting hfound
      · next hsole =>
        exact h.pinsTokens_sole hhouses hid hfull hfirst hlast hreached hbeyond hsole hfound
  · exact h.pinsTokens_outside hhouses hid ((h.outside_iff hhouses hid).mpr hwithin)

end Ends

end Tree

/-- Behind a token that was taken, the end of the text is empty, and so is the layout around it. -/
theorem Lexer.Reads.width_eq_zero {a b : Lexer} {tokens : List Token} (h : Reads a tokens b)
    (ha : a.Placed) (hne : tokens ≠ []) (heof : b.current.kind = .eof) : b.current.width = 0 := by
  have hplaced := h.placed ha
  have hrest : b.start.rest = [] := by
    rw [hplaced.kind_eq] at heof
    have hscan := (scan_kind_eq_eof_iff _ _ _).mp heof
    rwa [toScan, layout_of_none (h.stretch?_eq_none ha hne)] at hscan
  obtain ⟨chars, hpasses⟩ := hplaced.fills.passes
  obtain rfl : chars = [] := (List.append_eq_nil_iff.mp (hpasses.1.symm.trans hrest)).1
  have hoffset := hplaced.fills.offset_eq
  rw [hpasses.eq_of_nil] at hoffset
  omega

namespace Grammar

variable {text : String} {limit : Nat} {tree : Tree}

/-- Where there is a token in front of the end of a text, the end takes no bytes. -/
theorem width_ending (h : Shape.tokensAll (fileReading text limit).shapes ≠ []) :
    (fileReading text limit).lexer.current.width = 0 := by
  obtain ⟨tokens, hreads, -, hcleared, -⟩ := (accounted_fileReading text limit).reads
  refine hreads.width_eq_zero (Lexer.place_placed _ _ _) ?_ (fileReading_eof text limit)
  rintro rfl
  exact h (List.map_eq_nil_iff.mp hcleared)

/-- The tokens of a file are those of its items and the end of the text. -/
theorem tokens_fileShape (text : String) (limit : Nat) :
    (fileShape text limit).tokens = Shape.tokensAll (fileReading text limit).shapes ++
      [(fileReading text limit).lexer.current] := by
  simp [fileShape, Shape.tokens]

/-- Every token of a file in front of the end of the text has bytes. -/
theorem reached_lt (h : tree.Houses (fileShape text limit)) {token : Nat}
    (htoken : token + 1 < tree.leafCount) : tree.reached token < tree.reached (token + 1) := by
  have hlt : token < tree.leafCount := Nat.lt_of_succ_lt htoken
  obtain ⟨home, shape, site, hpart, helement⟩ := h.exists_part (.token token) hlt
  cases shape with
  | node kind field children => cases helement
  | leaf held field =>
    obtain rfl := Element.token.inj helement
    obtain ⟨front, back, htokens, hfront, -⟩ := hpart.exists_tokens
    rw [h.leaves, tokens_fileShape, List.length_append, List.length_singleton, ← hfront] at htoken
    have hheld : held ∈ Shape.tokensAll (fileReading text limit).shapes := by
      rw [tokens_fileShape, Shape.tokens, List.append_assoc] at htokens
      have hget := congrArg (·[front.length]?) htokens
      simp only [List.getElem?_append_right (Nat.le_refl _), Nat.sub_self] at hget
      rw [List.getElem?_append_left (by omega)] at hget
      exact List.mem_of_getElem? hget
    have hspan := span_lt_of_mem_items hheld
    have hsits := hpart.sits h.sits
    obtain ⟨parent, -, hleaf, -⟩ := hsits
    obtain ⟨hstart, -, hstop⟩ := h.leaf_within hlt
    rw [Tree.leaf_eq hleaf] at hstart hstop
    simp only [Shape.leafAt, Span.sized, Span.size] at hstart hstop
    omega

/-- The end of a text stands behind the items. -/
theorem part_ending (text : String) (limit : Nat) : (fileShape text limit).Part (some Tree.root)
    (.leaf (fileReading text limit).lexer.current none)
    (Site.front.inside.pastAll (fileReading text limit).shapes) :=
  .child .whole

theorem leafCount_eq (h : tree.Houses (fileShape text limit)) :
    tree.leafCount = (Shape.tokensAll (fileReading text limit).shapes).length + 1 := by
  rw [h.leaves, tokens_fileShape, List.length_append, List.length_singleton]

/-- The last token is the end of the text. -/
theorem kind_ending (h : tree.Houses (fileShape text limit)) :
    (tree.leaf (tree.leafCount - 1)).kind = .eof := by
  obtain ⟨parent, -, hleaf, -⟩ := (part_ending text limit).sits h.sits
  have htoken : tree.leafCount - 1 =
      (Site.front.inside.pastAll (fileReading text limit).shapes).token := by
    simp [leafCount_eq h, Site.pastAll, Site.inside, Site.front]
  rw [htoken, Tree.leaf_eq hleaf]
  exact fileReading_eof text limit

/-- Where there is a token in front of the end of the text, it goes up to the end. -/
theorem reached_ending (h : tree.Houses (fileShape text limit)) (hmore : 1 < tree.leafCount) :
    tree.reached (tree.leafCount - 1) = tree.text.utf8ByteSize := by
  have hne : Shape.tokensAll (fileReading text limit).shapes ≠ [] := by
    intro hnil
    rw [leafCount_eq h, hnil] at hmore
    exact Nat.lt_irrefl _ hmore
  have hreached := (part_ending text limit).reached h.sits
  have hwidth := width_ending hne
  simp only [Site.pastAll, Site.inside, Site.front, Nat.zero_add] at hreached
  rw [leafCount_eq h, Nat.add_sub_cancel, ← hreached, h.text, tokens_fileShape, widthOf_append,
    widthOf_singleton, hwidth, Nat.add_zero]

/-- The root has all tokens. -/
theorem ends_root (h : tree.Houses (fileShape text limit)) :
    tree.Ends Tree.root 0 (tree.leafCount - 1) := by
  have hrun : (tree.node Tree.root).tokens = ⟨0, (fileShape text limit).tokens.length⟩ :=
    h.sits.tokenRun_element
  have hcount := leafCount_eq h
  refine ⟨Nat.zero_le _, by omega, ?_⟩
  rw [hrun, ← h.leaves]
  exact congrArg (Run.mk 0) (by omega)

theorem reached_leafCount (h : tree.Houses (fileShape text limit)) :
    tree.reached (tree.leafCount - 1 + 1) = tree.text.utf8ByteSize := by
  have hspan := (ends_root h).elementSpan_eq h h.root_lt.1
  exact congrArg Span.stop (hspan.symm.trans h.nodeSpan_root)

/-- In the tree of a file, what is found at an offset is what is there, but for the end of the text
in the root. -/
theorem pinsTokens_file (h : tree.Houses (fileShape text limit)) {id : NodeId}
    (hid : id < tree.nodeCount) {offset : Nat}
    (hoffset : id = Tree.root → offset = tree.text.utf8ByteSize → tree.leafCount = 1) :
    tree.PinsTokens id offset := by
  by_cases hroot : id = Tree.root
  · subst hroot
    refine (ends_root h).pinsTokens h hid (fun token _ hless => reached_lt h (by omega)) ?_
    intro hend hmore
    have hone := hoffset rfl (hend.trans (reached_leafCount h))
    omega
  · obtain ⟨first, last, hends⟩ := (discerned_file h).exists_ends h hid
    have hle := hends.le
    have hlt := hends.lt
    refine hends.pinsTokens h hid (fun token _ hless => reached_lt h (by omega)) ?_
    rintro rfl -
    -- the end of the text is not in an inner node, so the last token has characters
    have hsolid := (discerned_file h).solid id hid hroot last
      (hends.mem_tokensBelow.mpr ⟨hle, Nat.le_refl _⟩)
    obtain ⟨hstart, -, hstop⟩ := h.leaf_within hlt
    omega

/-- Behind the other tokens of a file, a search from the root finds the end of the text, but not the
token that meets it. -/
theorem tokensAt_ending (h : tree.Houses (fileShape text limit)) (hmore : 1 < tree.leafCount) :
    tree.tokensAt Tree.root tree.text.utf8ByteSize = .single (tree.leafCount - 1) ∧
      tree.Meet Tree.root tree.text.utf8ByteSize (tree.leafCount - 2) (tree.leafCount - 1) := by
  have hends := ends_root h
  have hend := reached_leafCount h
  refine ⟨?_, (hends.meet_iff h).mpr ⟨by omega, Nat.zero_le _, Nat.le_refl _,
    reached_ending h hmore⟩⟩
  rcases hends.exists_tokensAt h h.root_lt.1 (Nat.zero_le _) (Nat.le_of_eq hend.symm) with
    ⟨-, hfound⟩ | ⟨right, -, hlast, -, hbeyond, -⟩
  · exact hfound
  · have hmono := h.reached_mono (show right + 1 ≤ tree.leafCount - 1 + 1 by omega) hends.lt
    omega

end Grammar

open Grammar

/-- In the tree of every text, what is found at an offset from a node is what is there: nothing
outside the node, two tokens where they meet, and otherwise the only token that touches the offset.
Only at the end of the text, if there are other tokens, a search from the root finds the empty end
of the text alone, although another token meets it there. -/
theorem parse_pinsTokens {text : String} (h : text.utf8ByteSize < 2 ^ 32) (limit : Nat) :
    ∃ parse, parseWith text limit = .ok parse ∧
      (∀ id < parse.tree.nodeCount, ∀ offset,
        (id = Tree.root → offset = text.utf8ByteSize → parse.tree.leafCount = 1) →
          parse.tree.PinsTokens id offset) ∧
      (1 < parse.tree.leafCount →
        parse.tree.tokensAt Tree.root text.utf8ByteSize = .single (parse.tree.leafCount - 1) ∧
          (parse.tree.leaf (parse.tree.leafCount - 1)).kind = .eof ∧
          parse.tree.Meet Tree.root text.utf8ByteSize (parse.tree.leafCount - 2)
            (parse.tree.leafCount - 1)) := by
  obtain ⟨tree, hparse, rfl, -⟩ := parseWith_eq h limit
  have hhouses : tree.Houses (fileShape tree.text limit) :=
    Tree.houses_node (assemble_of_parseWith hparse)
  refine ⟨_, hparse, fun id hid offset => pinsTokens_file hhouses hid, fun hmore => ?_⟩
  obtain ⟨hfound, hmeet⟩ := tokensAt_ending hhouses hmore
  exact ⟨hfound, kind_ending hhouses, hmeet⟩

/-- A class goes up to the end of its text, where its semicolon is found from the class, but not
from the root. -/
theorem parse_pinsTokens_class :
    ∃ parse, parseWith "class A;" 20 = .ok parse ∧ parse.tree.PinsTokens 1 8 ∧
      parse.tree.tokensAt Tree.root 8 = .single (parse.tree.leafCount - 1) := by
  obtain ⟨parse, hparse, hpins, hend⟩ :=
    parse_pinsTokens (show "class A;".utf8ByteSize < 2 ^ 32 by decide) 20
  have hcounts : (parseWith "class A;" 20).toOption.any (fun parse =>
      decide (1 < parse.tree.nodeCount ∧ 1 < parse.tree.leafCount)) = true := by
    decide +kernel
  rw [hparse] at hcounts
  obtain ⟨hnodes, hleaves⟩ := of_decide_eq_true hcounts
  exact ⟨parse, hparse, hpins 1 hnodes 8 nofun, (hend hleaves).1⟩

/-- At the end of a constant, the semicolon and the end of the text meet, and only the end of the
text is found. -/
theorem tokensAt_const_end :
    ∃ parse, parseWith "const a=1;" 20 = .ok parse ∧ parse.tree.Meet Tree.root 10 4 5 ∧
      parse.tree.tokensAt Tree.root 10 = .single 5 ∧ ¬ parse.tree.PinsTokens Tree.root 10 := by
  have hfound : (parseWith "const a=1;" 20).toOption.any (fun parse =>
      decide (parse.tree.Meet Tree.root 10 4 5 ∧
        parse.tree.tokensAt Tree.root 10 = .single 5)) = true := by
    decide +kernel
  cases hparse : parseWith "const a=1;" 20 with
  | error fault =>
    rw [hparse] at hfound
    cases hfound
  | ok parse =>
    rw [hparse] at hfound
    obtain ⟨hmeet, hsingle⟩ := of_decide_eq_true hfound
    refine ⟨parse, rfl, hmeet, hsingle, fun hpins => ?_⟩
    cases hsingle.symm.trans ((hpins.between 4 5).mpr hmeet)

end ScriptTree
