import Mathlib.Data.List.Forall2
import ScriptTree.Proofs.Parser.Arrangement
import ScriptTree.Proofs.Parser.Draft

/-!
Events that record a draft: in the order in which they open, the events stand for the entries of the
draft one by one. Whatever is done to the draft is done to the events by one of a few changes.
-/

namespace ScriptTree

/-- A list that goes with two lists side by side has two parts that go with them. -/
theorem exists_of_forall₂_append {α β : Type} {R : α → β → Prop} {xs : List α} {front back : List β}
    (h : List.Forall₂ R xs (front ++ back)) :
    ∃ front' back', xs = front' ++ back' ∧ List.Forall₂ R front' front ∧
      List.Forall₂ R back' back := by
  induction front generalizing xs with
  | nil => exact ⟨[], xs, rfl, .nil, h⟩
  | cons first front ih =>
    cases h with
    | cons hfirst hrest =>
      obtain ⟨front', back', rfl, hfront, hback⟩ := ih hrest
      exact ⟨_ :: front', back', rfl, .cons hfirst hfront, hback⟩

/-- The last entries of lists that go together go together. -/
theorem exists_getLast_of_forall₂ {α β : Type} {R : α → β → Prop} {front : List α} {last : α}
    {ys : List β} (h : List.Forall₂ R (front ++ [last]) ys) : ∃ y ∈ ys.getLast?, R last y := by
  have hflip : List.Forall₂ (flip R) ys (front ++ [last]) := List.Forall₂.flip h
  obtain ⟨front', back', rfl, -, hback⟩ := exists_of_forall₂_append hflip
  cases hback with
  | cons hlast hnil =>
    cases hnil
    exact ⟨_, by simp, hlast⟩

namespace Entry

/-- The event at a position stands for an entry. -/
def Fits (events : Events) (position : Nat) : Entry → Prop
  | .token held field => events[position]? = some (.token held field)
  | .opening mark => position = mark ∧ events[position]? = some .blank
  | .start mark kind field => position = mark ∧ kind ≠ .tombstone ∧
      ∃ forward, events[position]? = some (.start kind forward field)
  | .finish => events[position]? = some .finish

theorem Fits.congr {events events' : Events} {position : Nat} {entry : Entry}
    (h : entry.Fits events position) (hsame : events'[position]? = events[position]?) :
    entry.Fits events' position := by
  cases entry <;> simpa only [Fits, hsame] using h

/-- An event makes the steps of the entry that it stands for. -/
theorem Fits.own {events : Events} {position : Nat} {entry : Entry}
    (h : entry.Fits events position) : events.own position = entry.steps := by
  cases entry with
  | token held field =>
    have hevent : events[position]? = some (.token held field) := h
    simp [Events.own, hevent, steps]
  | opening mark => simp [Events.own, h.2, Event.blank, steps]
  | start mark kind field =>
    obtain ⟨-, hkind, forward, hevent⟩ := h
    simp [Events.own, hevent, hkind, steps]
  | finish =>
    have hevent : events[position]? = some .finish := h
    simp [Events.own, hevent, steps]

end Entry

/-- Events record entries: in the order in which they open, they stand for the entries. The blanks
of the marks `alone` open by themselves. -/
structure Records (events : Events) (blocks : List (List Nat)) (entries : List Entry)
    (alone : List Nat) : Prop where
  arranged : events.Arranged blocks
  fits : List.Forall₂ (fun position entry => Entry.Fits events position entry) blocks.flatten
    entries
  alone : ∀ mark ∈ alone, blocks[mark]? = some [mark]

namespace Records

open Events

variable {events : Events} {blocks : List (List Nat)} {entries front back : List Entry}
  {alone : List Nat} {mark : Nat}

/-- The steps of the events are those of the entries. -/
theorem steps_eq (h : Records events blocks entries alone) :
    events.steps = entries.flatMap Entry.steps := by
  rw [h.arranged.steps_eq]
  have hfits := h.fits
  generalize blocks.flatten = positions at hfits
  clear h
  induction hfits with
  | nil => rfl
  | cons hfirst _ ih => rw [List.flatMap_cons, List.flatMap_cons, ih, hfirst.own]

/-- Every entry has an event of its own. -/
theorem length_entries_le (h : Records events blocks entries alone) :
    entries.length ≤ events.size := by
  rw [← h.fits.length_eq]
  have hsub : blocks.flatten ⊆ List.range events.size := fun position hmem =>
    List.mem_range.mpr (h.arranged.bound position hmem)
  simpa using (h.arranged.nodup.subperm hsub).length_le

/-- Where an entry stands among the events. -/
theorem locate {entry : Entry} (h : Records events blocks (front ++ entry :: back) alone) :
    ∃ before position behind, blocks.flatten = before ++ position :: behind ∧
      List.Forall₂ (fun position entry => Entry.Fits events position entry) before front ∧
      entry.Fits events position ∧
      List.Forall₂ (fun position entry => Entry.Fits events position entry) behind back ∧
      position ∉ before ∧ position ∉ behind := by
  obtain ⟨before, rest, hflatten, hfront, hrest⟩ := exists_of_forall₂_append h.fits
  cases hrest with
  | cons hentry hback =>
    have hnodup := h.arranged.nodup
    rw [hflatten] at hnodup
    have hnot := (List.nodup_middle.mp hnodup).notMem
    rw [List.mem_append, not_or] at hnot
    exact ⟨before, _, _, hflatten, hfront, hentry, hback, hnot⟩

theorem exists_fits {entry : Entry} (h : Records events blocks entries alone)
    (hmem : entry ∈ entries) : ∃ position, entry.Fits events position := by
  obtain ⟨front, back, rfl⟩ := List.append_of_mem hmem
  obtain ⟨before, position, behind, -, -, hentry, -⟩ := h.locate
  exact ⟨position, hentry⟩

/-- No two nodes that have begun have the same mark. -/
theorem opening_ne {own : Nat} (h : Records events blocks (front ++ .opening mark :: back) alone)
    (hmem : Entry.opening own ∈ front) : own ≠ mark := by
  obtain ⟨before, position, behind, -, hfront, ⟨rfl, -⟩, -, hbefore, -⟩ := h.locate
  obtain ⟨first, last, rfl⟩ := List.append_of_mem hmem
  obtain ⟨before', rest, rfl, -, hrest⟩ := exists_of_forall₂_append hfront
  cases hrest with
  | cons hown _ =>
    obtain ⟨rfl, -⟩ := hown
    rintro rfl
    exact hbefore (by simp)

/-- Items still fit where the events are the same. -/
theorem fits_of_same {events' : Events} {positions : List Nat} {entries : List Entry}
    (h : List.Forall₂ (fun position entry => Entry.Fits events position entry) positions entries)
    (hsame : ∀ position ∈ positions, events'[position]? = events[position]?) :
    List.Forall₂ (fun position entry => Entry.Fits events' position entry) positions entries := by
  induction h with
  | nil => exact .nil
  | cons hfirst _ ih =>
    exact .cons (hfirst.congr (hsame _ (by simp)))
      (ih fun position hmem => hsame position (List.mem_cons_of_mem _ hmem))

theorem empty : Records #[] [] [] [] :=
  ⟨.empty, .nil, by simp⟩

theorem mono {alone' : List Nat} (h : Records events blocks entries alone)
    (hsub : ∀ mark ∈ alone', mark ∈ alone) : Records events blocks entries alone' :=
  ⟨h.arranged, h.fits, fun mark hmem => h.alone mark (hsub mark hmem)⟩

/-- An event is written behind the others. -/
theorem write (h : Records events blocks entries alone) (event : Event) (entry : Entry)
    (hfree : ∀ kind forward field, event = .start kind forward field → forward = none)
    (hentry : entry.Fits (events.push event) events.size) :
    Records (events.push event) (blocks ++ [[events.size]]) (entries ++ [entry])
      (events.size :: alone) := by
  refine ⟨h.arranged.push hfree, ?_, ?_⟩
  · have hsame : ∀ position ∈ blocks.flatten, (events.push event)[position]? = events[position]? :=
      fun position hmem =>
        Arranged.getElem?_push_of_lt events event (h.arranged.bound position hmem)
    rw [List.flatten_append, List.flatten_singleton]
    exact List.rel_append (fits_of_same h.fits hsame) (.cons hentry .nil)
  · intro mark hmem
    rcases List.mem_cons.mp hmem with rfl | hmem
    · simp [← h.arranged.length]
    · have hmark := h.alone mark hmem
      rw [List.getElem?_append_left (List.getElem?_eq_some_iff.mp hmark).1, hmark]

/-- A blank gets a kind. -/
theorem settle (h : Records events blocks (front ++ .opening mark :: back) alone) {kind : Kind}
    (hkind : kind ≠ .tombstone) :
    Records (events.modify mark (Event.withKind kind)) blocks
      (front ++ .start mark kind none :: back) alone := by
  obtain ⟨before, position, behind, hflatten, hfront, ⟨rfl, hblank⟩, hback, hbefore, hbehind⟩ :=
    h.locate
  have hin : position ∈ blocks.flatten := by simp [hflatten]
  have hsame {other : Nat} (hne : other ≠ position) :
      (events.modify position (Event.withKind kind))[other]? = events[other]? := by
    rw [Array.getElem?_modify, if_neg hne.symm]
  have hchange : Event.withKind kind .blank = .start kind none none := rfl
  refine ⟨h.arranged.retouch hin hblank hchange hkind, ?_, h.alone⟩
  rw [hflatten]
  refine List.rel_append ?_ (.cons ⟨rfl, hkind, none, ?_⟩ ?_)
  · exact fits_of_same hfront fun other hmem => hsame fun heq => hbefore (heq ▸ hmem)
  · rw [Array.getElem?_modify, if_pos rfl, hblank, Option.map_some, hchange]
  · exact fits_of_same hback fun other hmem => hsame fun heq => hbehind (heq ▸ hmem)

/-- A completed node is put into a slot. -/
theorem fill {kind : Kind} {field : Option Field} (h : Records events blocks entries alone)
    (hmem : Entry.start mark kind field ∈ entries) (slot : Field) :
    Records (events.setField mark slot) blocks (entries.map (Entry.fill mark slot)) alone := by
  obtain ⟨front, back, rfl⟩ := List.append_of_mem hmem
  obtain ⟨before, position, behind, hflatten, -, ⟨rfl, hkind, forward, hevent⟩, -⟩ := h.locate
  have hin : position ∈ blocks.flatten := by simp [hflatten]
  have hchange :
      Event.withField slot (.start kind forward field) = .start kind forward (some slot) := rfl
  refine ⟨h.arranged.retouch hin hevent hchange hkind, ?_, h.alone⟩
  rw [List.forall₂_map_right_iff]
  refine h.fits.imp ?_
  intro other entry hfits
  -- a completed start is the only entry with its mark, and all other events are as they were
  by_cases hother : other = position
  · -- the event is a completed start, so it stands for no other entry
    subst hother
    have hnew : (events.setField other slot)[other]? = some (.start kind forward (some slot)) := by
      rw [setField, Array.getElem?_modify, if_pos rfl, hevent, Option.map_some, hchange]
    cases entry with
    | token held field' =>
      have htoken : events[other]? = some (.token held field') := hfits
      rw [htoken] at hevent
      cases hevent
    | opening mark' =>
      rw [hfits.2] at hevent
      exact absurd (Event.start.inj (Option.some.inj hevent)).1.symm hkind
    | start mark' kind' field' =>
      obtain ⟨rfl, -, forward', hevent'⟩ := hfits
      obtain ⟨rfl, -, -⟩ := Event.start.inj (Option.some.inj (hevent.symm.trans hevent'))
      rw [Entry.fill, if_pos rfl]
      exact ⟨rfl, hkind, forward, hnew⟩
    | finish =>
      have hfinish : events[other]? = some .finish := hfits
      rw [hfinish] at hevent
      cases hevent
  · have hsame : (events.setField position slot)[other]? = events[other]? := by
      rw [setField, Array.getElem?_modify, if_neg (Ne.symm hother)]
    have hentry : entry.fill position slot = entry := by
      cases entry with
      | start mark' kind' field' =>
        rw [Entry.fill, if_neg]
        exact fun heq => hother (hfits.1.trans heq)
      | _ => rfl
    rw [hentry]
    exact hfits.congr hsame

/-- Two cuts of a list at an entry that stands only once are the same. -/
theorem cut_unique {before behind before' behind' : List Nat}
    (h : before ++ mark :: behind = before' ++ mark :: behind') (hbefore : mark ∉ before)
    (hbehind : mark ∉ behind) : before' = before ∧ behind' = behind := by
  obtain ⟨hfront, -, hback⟩ := (List.append_cons_inj_of_notMem hbefore hbehind).mp h
  exact ⟨hfront.symm, hback.symm⟩

/-- A blank is given up and stays where it is. -/
theorem erase (h : Records events blocks (front ++ .opening mark :: back) alone) :
    ∃ blocks', Records events blocks' (front ++ back) (alone.filter (· ≠ mark)) := by
  obtain ⟨before, position, behind, hflatten, hfront, ⟨rfl, hblank⟩, hback, hbefore, hbehind⟩ :=
    h.locate
  have hin : position ∈ blocks.flatten := by simp [hflatten]
  obtain ⟨first, rest, last, rfl⟩ := h.arranged.exists_cons hin (target_of_start hblank)
  have hcut : first.flatten = before ∧ rest ++ last.flatten = behind := by
    refine cut_unique ?_ hbefore hbehind
    rw [← hflatten]
    simp
  refine ⟨first ++ rest :: last, h.arranged.erase (isBlankAt_iff.mpr ⟨none, hblank⟩), ?_, ?_⟩
  · rw [List.flatten_append, List.flatten_cons, hcut.1, hcut.2]
    exact List.rel_append hfront hback
  · intro mark hmem
    rw [List.mem_filter, decide_eq_true_iff] at hmem
    rcases Arranged.getElem?_replaced rest (h.alone mark hmem.1) with ⟨-, heq⟩ | hmark
    · exact absurd (List.cons.inj heq).1 hmem.2
    · exact hmark

/-- A blank that was written last and opens by itself is given up and goes away. -/
theorem pop (h : Records events blocks (front ++ .opening mark :: back) alone)
    (halone : mark ∈ alone) (hlast : mark + 1 = events.size) :
    ∃ blocks', Records events.pop blocks' (front ++ back) (alone.filter (· ≠ mark)) := by
  obtain ⟨before, position, behind, hflatten, hfront, ⟨rfl, hblank⟩, hback, hbefore, hbehind⟩ :=
    h.locate
  have hlength : blocks.length = position + 1 := h.arranged.length.trans hlast.symm
  -- the last block is that of the blank, which opens by itself
  obtain ⟨first, rfl⟩ : ∃ first, blocks = first ++ [[position]] := by
    obtain ⟨first, final, rfl⟩ :=
      (List.eq_nil_or_concat blocks).resolve_left (List.ne_nil_of_length_eq_add_one hlength)
    rw [List.concat_eq_append] at hlength ⊢
    have hfirst : first.length = position := by simpa using hlength
    have hfinal := h.alone position halone
    rw [List.concat_eq_append, ← hfirst, List.getElem?_concat_length] at hfinal
    rw [Option.some.inj hfinal, hfirst]
    exact ⟨first, rfl⟩
  have hcut : first.flatten = before ∧ [] = behind := by
    refine cut_unique ?_ hbefore hbehind
    rw [← hflatten]
    simp
  refine ⟨first, h.arranged.pop, ?_, ?_⟩
  · rw [← hcut.2] at hback
    cases hback
    rw [List.append_nil, hcut.1]
    refine fits_of_same hfront ?_
    intro other hmem
    have hlt : other < events.size := h.arranged.bound other (by simp [hflatten, hmem])
    have hne : other ≠ position := fun heq => hbefore (heq ▸ hmem)
    rw [Array.getElem?_pop, if_pos (by omega)]
  · intro mark hmem
    rw [List.mem_filter, decide_eq_true_iff] at hmem
    have hmark := h.alone mark hmem.1
    have hlt := (List.getElem?_eq_some_iff.mp hmark).1
    rw [List.length_append, List.length_singleton] at hlt hlength
    rwa [List.getElem?_append_left (by omega)] at hmark

/-- A node that has begun right before a completed one, or whose element ends there, is not what the
completed one points to. -/
theorem outermost {kind : Kind} {field : Option Field}
    (h : Records events blocks (front ++ .start mark kind field :: back) alone)
    (hlast : ∀ last ∈ front.getLast?, last.isEnd = true ∨ ∃ own ∈ alone, last = .opening own) :
    ∃ first rest last, blocks = first ++ (mark :: rest) :: last := by
  obtain ⟨before, position, behind, hflatten, hfront, ⟨rfl, -, -⟩, -, hbefore, hbehind⟩ := h.locate
  have hin : position ∈ blocks.flatten := by simp [hflatten]
  obtain ⟨block, hblock, hmem⟩ := List.mem_flatten.mp hin
  rcases h.arranged.outermost_or_linked hblock hmem with
    ⟨rest, rfl⟩ | ⟨outside, outer, inside, rfl, -, hstarts⟩
  · obtain ⟨first, last, rfl⟩ := List.append_of_mem hblock
    exact ⟨first, rest, last, rfl⟩
  · -- the event right outside would stand for the last entry in front
    obtain ⟨first, final, rfl⟩ := List.append_of_mem hblock
    have hcut :
        first.flatten ++ outside ++ [outer] = before ∧ inside ++ final.flatten = behind := by
      refine cut_unique ?_ hbefore hbehind
      rw [← hflatten]
      simp
    rw [← hcut.1] at hfront
    obtain ⟨last, hmem', hfits⟩ := exists_getLast_of_forall₂ hfront
    rcases hlast last hmem' with hend | ⟨own, hown, rfl⟩
    · obtain ⟨kind', forward', field', hevent⟩ := startsAt_iff.mp hstarts
      cases last with
      | token held field'' =>
        have htoken : events[outer]? = some (.token held field'') := hfits
        rw [htoken] at hevent
        cases hevent
      | finish =>
        have hfinish : events[outer]? = some .finish := hfits
        rw [hfinish] at hevent
        cases hevent
      | opening mark' => cases hend
      | start mark' kind'' field'' => cases hend
    · obtain ⟨rfl, -⟩ := hfits
      have hself := h.alone outer hown
      have hfirst : (first ++ (outside ++ outer :: position :: inside) :: final)[first.length]? =
          some (outside ++ outer :: position :: inside) := by simp
      have hsame : outer = first.length :=
        h.arranged.eq_of_mem hself hfirst (List.mem_singleton_self outer) (by simp)
      rw [← hsame, hself] at hfirst
      have hlength := congrArg List.length (Option.some.inj hfirst)
      simp only [List.length_append, List.length_cons, List.length_nil] at hlength
      omega

/-- A node is begun in front of a completed one. -/
theorem precede {kind : Kind} {field : Option Field}
    (h : Records events blocks (front ++ .start mark kind field :: back) alone)
    (hlast : ∀ last ∈ front.getLast?, last.isEnd = true ∨ ∃ own ∈ alone, last = .opening own)
    (halone : mark ∉ alone) :
    ∃ blocks', Records (events.precede mark) blocks'
      (front ++ .opening events.size :: .start mark kind field :: back) alone := by
  obtain ⟨first, rest, last, rfl⟩ := h.outermost hlast
  obtain ⟨before, position, behind, hflatten, hfront, ⟨rfl, hkind, forward, hevent⟩, hback, hbefore,
    hbehind⟩ := h.locate
  have hcut : first.flatten = before ∧ rest ++ last.flatten = behind := by
    refine cut_unique ?_ hbefore hbehind
    rw [← hflatten]
    simp
  have hget := Arranged.getElem?_precede hevent
  have hlt {other : Nat} (hmem : other ∈ before ∨ other ∈ behind) : other < events.size := by
    refine h.arranged.bound other ?_
    rw [hflatten]
    simp only [List.mem_append, List.mem_cons]
    tauto
  have hsame {other : Nat} (hmem : other ∈ before ∨ other ∈ behind) (hne : other ≠ position) :
      (events.precede position)[other]? = events[other]? := by
    rw [hget, if_neg (Nat.ne_of_lt (hlt hmem)), if_neg hne]
  refine ⟨_, h.arranged.precede hevent hkind, ?_, ?_⟩
  · rw [List.flatten_append, List.flatten_cons, List.flatten_append, hcut.1]
    simp only [List.flatten_cons, List.flatten_nil, List.append_nil, List.cons_append, hcut.2]
    refine List.rel_append ?_ (.cons ?_ (.cons ?_ ?_))
    · exact fits_of_same hfront fun other hmem =>
        hsame (Or.inl hmem) fun heq => hbefore (heq ▸ hmem)
    · exact ⟨rfl, by rw [hget, if_pos rfl]⟩
    · have hne : position ≠ events.size := Nat.ne_of_lt (Array.getElem?_eq_some_iff.mp hevent).1
      exact ⟨rfl, hkind, _, by rw [hget, if_neg hne, if_pos rfl]⟩
    · exact fits_of_same hback fun other hmem =>
        hsame (Or.inr hmem) fun heq => hbehind (heq ▸ hmem)
  · intro mark hmem
    have hmark := h.alone mark hmem
    rcases Arranged.getElem?_replaced (events.size :: position :: rest) hmark with ⟨-, heq⟩ | hmark
    · rw [(List.cons.inj heq).1] at hmem
      exact absurd hmem halone
    · rw [← List.cons_append, ← List.append_assoc,
        List.getElem?_append_left (List.getElem?_eq_some_iff.mp hmark).1, hmark]

end Records

namespace Draft

open Events Sketch

def alone (draft : Draft) : List Nat :=
  (draft.opened.filter (!·.precedes)).map (·.mark)

def Matches (draft : Draft) (events : Events) : Prop :=
  draft.size = events.size ∧ ∃ blocks, Records events blocks draft.entries draft.alone

theorem mem_alone {draft : Draft} {mark : Nat} : mark ∈ draft.alone ↔
    ∃ frame ∈ draft.opened, frame.precedes = false ∧ frame.mark = mark := by
  simp [alone, and_assoc]

theorem matches_empty : empty.Matches #[] :=
  ⟨rfl, [], .empty⟩

namespace Matches

variable {draft draft' : Draft} {events : Events} {mark : Nat}

theorem isLinked (h : draft.Matches events) : events.isLinked = true := by
  obtain ⟨-, blocks, hrecords⟩ := h
  exact hrecords.arranged.isLinked

/-- The steps of the events build what was put down. -/
theorem steps_eq (h : draft.Matches events) (hclosed : draft.opened = []) :
    events.steps = Shape.stepsAll (shapeAll draft.elements) := by
  obtain ⟨-, blocks, hrecords⟩ := h
  rw [hrecords.steps_eq, entries, hclosed, entriesOf, flatMap_entriesAll]

/-- What was put down takes no more steps than events. -/
theorem length_steps_le (h : draft.Matches events) (hclosed : draft.opened = []) :
    (Shape.stepsAll (shapeAll draft.elements)).length ≤ draft.size := by
  obtain ⟨hsize, blocks, hrecords⟩ := h
  have hentries := hrecords.length_entries_le
  rw [entries, hclosed, entriesOf] at hentries
  rw [← flatMap_entriesAll, hsize]
  exact (Entry.length_steps_le _).trans hentries

/-- A node that has begun is not completed. -/
theorem notMem_alone {blocks : List (List Nat)} {kind : Kind} {field : Option Field}
    (h : Records events blocks draft.entries draft.alone)
    (hmem : Entry.start mark kind field ∈ draft.entries) : mark ∉ draft.alone := by
  intro halone
  obtain ⟨frame, hframe, -, rfl⟩ := mem_alone.mp halone
  obtain ⟨position, rfl, hblank⟩ := h.exists_fits (opening_mem_entriesOf hframe)
  obtain ⟨position', rfl, hkind, forward, hevent⟩ := h.exists_fits hmem
  rw [hevent] at hblank
  exact hkind (Event.start.inj (Option.some.inj hblank)).1

theorem start (h : draft.Matches events) : draft.start.Matches events.openNode := by
  obtain ⟨hsize, blocks, hrecords⟩ := h
  refine ⟨by simp [Draft.start, openNode, hsize], blocks ++ [[events.size]], ?_⟩
  have hwrite := hrecords.write .blank (.opening events.size)
    (fun kind forward field heq => (Event.start.inj heq).2.1.symm) ⟨rfl, Array.getElem?_push_size⟩
  have halone : draft.start.alone = events.size :: draft.alone := by
    simp [Draft.alone, Draft.start, hsize]
  rw [entries_start, halone, hsize]
  exact hwrite

theorem push (h : draft.Matches events) (token : Token) (field : Option Field) :
    (draft.push token field).Matches (events.push (.token token field)) := by
  obtain ⟨hsize, blocks, hrecords⟩ := h
  refine ⟨by simp [Draft.push, hsize], blocks ++ [[events.size]], ?_⟩
  have hwrite := hrecords.write (.token token field) (.token token field)
    (fun _ _ _ => Event.noConfusion) Array.getElem?_push_size
  rw [entries_push]
  exact hwrite.mono fun mark hmem => List.mem_cons_of_mem _ hmem

/-- The start that was blank stands for a node from now on, and the end of the node is recorded
last. -/
theorem complete {kind : Kind} (h : draft.Matches events)
    (hdraft : draft.complete mark kind = some draft') :
    events.startsAt mark = true ∧ draft'.Matches (events.complete mark kind) := by
  obtain ⟨hsize, blocks, hrecords⟩ := h
  obtain ⟨frame, opened, hopened, rfl, hkind, rfl⟩ := complete_eq hdraft
  rw [entries_of_opened hopened] at hrecords
  obtain ⟨-, position, -, -, -, ⟨rfl, hblank⟩, -⟩ := hrecords.locate
  refine ⟨startsAt_iff.mpr ⟨_, _, _, hblank⟩, ?_, ?_⟩
  · simp [Events.complete, hsize]
  · -- the blank gets its kind, and an end is written
    have hwrite := (hrecords.settle hkind).write .finish .finish
      (fun _ _ _ => Event.noConfusion) Array.getElem?_push_size
    rw [entries_completed]
    refine ⟨_, hwrite.mono ?_⟩
    intro mark hmem
    obtain ⟨frame', hframe', hprecedes, rfl⟩ := mem_alone.mp hmem
    refine List.mem_cons_of_mem _ (mem_alone.mpr ⟨frame', ?_, hprecedes, rfl⟩)
    rw [hopened]
    exact List.mem_cons_of_mem _ hframe'

/-- The blank goes away with the frame where nothing was recorded behind it, and stays as a blank
otherwise. -/
theorem abandon (h : draft.Matches events) (hdraft : draft.abandon mark = some draft')
    (hfree : draft.isReferred = false) :
    events.isBlankAt mark = true ∧ draft'.Matches (events.abandon mark) := by
  obtain ⟨hsize, blocks, hrecords⟩ := h
  obtain ⟨frame, opened, hopened, rfl, rfl⟩ := abandon_eq hdraft
  rw [entries_of_opened hopened] at hrecords
  obtain ⟨-, position, -, -, -, ⟨rfl, hblank⟩, -⟩ := hrecords.locate
  have hleft (size : Nat) : ∀ mark ∈ alone ⟨size, opened, frame.outer ++ draft.elements⟩,
      mark ∈ draft.alone.filter (· ≠ frame.mark) := by
    intro mark hmem
    obtain ⟨frame', hframe', hprecedes, rfl⟩ := mem_alone.mp hmem
    rw [List.mem_filter, decide_eq_true_iff]
    refine ⟨mem_alone.mpr ⟨frame', ?_, hprecedes, rfl⟩, ?_⟩
    · rw [hopened]
      exact List.mem_cons_of_mem _ hframe'
    · exact hrecords.opening_ne (opening_mem_entriesOf hframe')
  refine ⟨isBlankAt_iff.mpr ⟨none, hblank⟩, ?_⟩
  unfold Events.abandon
  rw [← hsize]
  -- the blank goes away if it was written last, and stays as a blank that opens nothing otherwise
  by_cases hlast : frame.mark + 1 = draft.size
  · have hprecedes : frame.precedes = false := by simpa [isReferred, hopened, hlast] using hfree
    have halone : frame.mark ∈ draft.alone :=
      mem_alone.mpr ⟨frame, by simp [hopened], hprecedes, rfl⟩
    obtain ⟨blocks', hpop⟩ := hrecords.pop halone (hlast.trans hsize)
    rw [if_pos hlast, if_pos hlast]
    refine ⟨?_, blocks', ?_⟩
    · rw [Array.size_pop]
      dsimp only
      omega
    · rw [entries_abandoned]
      exact hpop.mono (hleft _)
  · obtain ⟨blocks', herase⟩ := hrecords.erase
    rw [if_neg hlast, if_neg hlast]
    refine ⟨hsize, blocks', ?_⟩
    rw [entries_abandoned]
    exact herase.mono (hleft _)

/-- Of all entries only the start of the node changes. -/
theorem fill {slot : Field} (h : draft.Matches events)
    (hdraft : draft.fill mark slot = some draft') :
    events.startsAt mark = true ∧ draft'.Matches (events.setField mark slot) := by
  obtain ⟨hsize, blocks, hrecords⟩ := h
  obtain ⟨hmem, rfl⟩ := fill_eq hdraft
  obtain ⟨kind, field, hstart⟩ := start_mem_entriesOf hmem
  obtain ⟨position, rfl, -, forward, hevent⟩ := hrecords.exists_fits hstart
  refine ⟨startsAt_iff.mpr ⟨_, _, _, hevent⟩, by simp [Events.setField, hsize], blocks, ?_⟩
  rw [entries, entriesOf_fill]
  refine (hrecords.fill hstart slot).mono ?_
  intro mark hmark
  obtain ⟨frame, hframe, hprecedes, rfl⟩ := mem_alone.mp hmark
  obtain ⟨frame', hframe', rfl⟩ := List.mem_map.mp hframe
  exact mem_alone.mpr ⟨frame', hframe', hprecedes, rfl⟩

/-- The start of the node points to the fresh one, which opens right in front of it. -/
theorem precede (h : draft.Matches events) (hdraft : draft.precede mark = some draft') :
    events.startsAt mark = true ∧ draft'.Matches (events.precede mark) := by
  obtain ⟨hsize, blocks, hrecords⟩ := h
  obtain ⟨opened, elements, hinsert, rfl⟩ := precede_eq hdraft
  obtain ⟨front, kind, field, back, hentries, hentries', hlast, hframes⟩ :=
    inserts_insertFrame hinsert
  have hmem : Entry.start mark kind field ∈ draft.entries := by simp [entries, hentries]
  have hnot := notMem_alone hrecords hmem
  obtain ⟨position, rfl, -, forward, hevent⟩ := hrecords.exists_fits hmem
  rw [entries, hentries] at hrecords
  obtain ⟨blocks', hprecede⟩ := hrecords.precede (fun last hlast' => by
    rcases hlast last hlast' with hend | ⟨frame, hframe, hprecedes, rfl⟩
    · exact Or.inl hend
    · exact Or.inr ⟨frame.mark, mem_alone.mpr ⟨frame, hframe, hprecedes, rfl⟩, rfl⟩) hnot
  refine ⟨startsAt_iff.mpr ⟨_, _, _, hevent⟩, ?_, blocks', ?_⟩
  · rw [Arranged.size_precede, ← hsize]
  · rw [entries, hentries', hsize]
    refine hprecede.mono ?_
    intro mark hmark
    obtain ⟨frame, hframe, hprecedes, rfl⟩ := mem_alone.mp hmark
    obtain ⟨frame', hframe', hprecedes', hsame⟩ := hframes frame hframe hprecedes
    exact mem_alone.mpr ⟨frame', hframe', hprecedes', hsame⟩

end Matches

end Draft

end ScriptTree
