import Mathlib.Data.List.Infix
import ScriptTree.Proofs.Lexer.Quoted
import ScriptTree.Proofs.Lexer.Standing
import ScriptTree.Proofs.Tree.Lay

/-!
Lexical errors. A quoted literal can be left open by the end of its line, and a block comment by the
end of the text. A token has room for one error. So where a comment that is left open lies behind a
literal that is left open, the error of the literal is lost. That can happen once in a text, since
nothing follows the comment, and no other error is ever lost.
-/

namespace ScriptTree

namespace Text

def isOpenComment : List Char → Bool
  | '/' :: '*' :: rest => !decide (['*', '/'] <:+: rest)
  | _ => false

end Text

open Text

def commentsLeftOpen (text : String) (offset : Nat) (pieces : List Piece) : List Span :=
  ((entriesFrom offset pieces).filter fun entry =>
    entry.kind == .blockComment && isOpenComment (entry.span.read text).toList).map (·.span)

namespace Token

def fault? (token : Token) : Option LexFault :=
  token.kind.faultOf token.text.toList

def isLeftOpen (token : Token) : Bool :=
  token.fault?.isSome

def openCommentsBefore (text : String) (token : Token) : List Span :=
  commentsLeftOpen text (token.span.start - Piece.totalSize token.leading) token.leading

def openCommentsBehind (text : String) (token : Token) : List Span :=
  commentsLeftOpen text token.span.stop token.trailing

def openComments (text : String) (token : Token) : List Span :=
  token.openCommentsBefore text ++ token.openCommentsBehind text

/-- Whether a comment that is left open lies behind a literal that is left open. -/
def isConcealed (text : String) (token : Token) : Bool :=
  token.isLeftOpen && !(token.openCommentsBehind text).isEmpty

end Token

/-- A comment is closed exactly if its closing mark is among the characters that it takes. -/
theorem commentRun_closed_eq (chars : List Char) :
    (commentRun chars).2 = decide (['*', '/'] <:+: chars.take (commentRun chars).1) := by
  fun_induction commentRun chars with
  | case1 => rfl
  | case2 rest => exact (decide_eq_true (List.infix_refl _)).symm
  | case3 c rest hend size closed hrun ih =>
    rw [hrun] at ih
    rw [List.take_succ_cons, ih, decide_eq_decide, List.infix_cons_iff]
    have hprefix : ¬ ['*', '/'] <+: c :: rest.take size := by
      intro hmark
      obtain ⟨hstar, hslash⟩ := List.cons_prefix_cons.mp hmark
      -- the characters after a star would start with a slash
      obtain ⟨tail, htail⟩ := hslash.trans (List.take_prefix size rest)
      exact hend tail hstar.symm htail.symm
    exact (or_iff_right hprefix).symm

/-- A piece of layout is left open if it is a block comment without a closing mark. -/
theorem stretch?_closed_eq {chars : List Char} {stretch : Stretch}
    (h : stretch? chars = some stretch) :
    (stretch.kind == .blockComment && isOpenComment (chars.take stretch.size)) =
      !stretch.closed := by
  unfold stretch? at h
  split at h
  case h_2 rest =>
    obtain rfl := Option.some.inj h
    have htake : ('/' :: '*' :: rest).take (2 + (commentRun rest).1) =
        '/' :: '*' :: rest.take (commentRun rest).1 := by
      rw [Nat.add_comm, List.take_succ_cons, List.take_succ_cons]
    change isOpenComment (('/' :: '*' :: rest).take (2 + (commentRun rest).1)) =
      !(commentRun rest).2
    rw [htake, isOpenComment, ← commentRun_closed_eq]
  case h_6 c rest _ _ _ _ _ =>
    split at h
    · obtain rfl := Option.some.inj h
      rfl
    · cases h
  case h_7 => cases h
  all_goals
    obtain rfl := Option.some.inj h
    rfl

/-- Reading layout finds fault with the comments in it that are left open: there is one at most. -/
theorem commentsLeftOpen_layout {text : String} {start : Cursor} (h : start.Within text) :
    commentsLeftOpen text start.offset (layout start).pieces =
      ((layout start).error.map (·.span)).toList := by
  fun_induction layout start with
  | case1 start hs => rfl
  | case2 start stretch hs next span more ih =>
    have hpasses : start.Passes (start.peek stretch.size) next := Cursor.passes_skip _ _
    have hread : (span.read text).toList = start.rest.take stretch.size := by
      rw [Span.read, h.read?_passes hpasses]
      exact String.toList_ofList
    have hoffset : start.offset + span.size = next.offset := by
      have hle := hpasses.offset_le
      simp only [span, Span.size]
      omega
    have hspan : Span.sized start.offset span.size = span := by
      simp only [Span.sized, hoffset, span]
    have hrest := ih (h.passes hpasses)
    have hopen := stretch?_closed_eq hs
    simp only [commentsLeftOpen, entriesFrom, hspan, hoffset] at hrest ⊢
    rw [List.filter_cons, hread, hopen]
    cases hclosed : stretch.closed with
    | true => exact hrest
    | false =>
      -- nothing is left behind a comment that is left open
      have hnext : next.rest = [] := stretch?_of_open hs hclosed
      have hmore : more.pieces = [] := by
        have hnone : stretch? next.rest = none := hnext ▸ rfl
        rw [show more = layout next from rfl, layout_of_none hnone]
      rw [hmore]
      rfl

namespace Lexer

/-- What a token has to record. Where a comment in front of it is left open, it is the end of the
text, and there is nothing else. -/
structure Records (text : String) (token : Token) (front back : Option LexError) : Prop where
  before : token.openCommentsBefore text = (front.map (·.span)).toList
  behind : token.openCommentsBehind text = (back.map (·.span)).toList
  error : token.error = (back <|> (token.fault?.map (⟨·, token.span⟩)) <|> front)
  frontFault : ∀ error ∈ front, error.fault = .unterminatedComment
  backFault : ∀ error ∈ back, error.fault = .unterminatedComment
  alone : front ≠ none → token.fault? = none ∧ back = none

theorem Reached.openCommentsBefore_eq {text : String} {lexer : Lexer} (h : lexer.Reached text) :
    lexer.current.openCommentsBefore text =
      ((layout lexer.start).error.map (·.span)).toList := by
  have hsum := (layout_laid lexer.start).offset_eq
  have hoffset : (layout lexer.start).after.offset -
      Piece.totalSize (layout lexer.start).pieces = lexer.start.offset := by
    omega
  rw [Token.openCommentsBefore, h.placed.leading_eq, h.placed.span_eq, hoffset]
  exact commentsLeftOpen_layout h.within

theorem Reached.openCommentsBehind_eq {text : String} {lexer : Lexer} (h : lexer.Reached text) :
    lexer.current.openCommentsBehind text =
      ((layout lexer.stop).error.map (·.span)).toList := by
  rw [Token.openCommentsBehind, h.placed.trailing_eq, h.placed.span_eq]
  exact commentsLeftOpen_layout h.stop_within

theorem Placed.fault?_eq {lexer : Lexer} (h : lexer.Placed) :
    lexer.current.fault? = lexer.found.fault := by
  rw [Token.fault?, h.kind_eq, h.text_eq]
  exact (scan_fault _ _ _).symm

/-- Behind a comment that is left open in front there is only the end of the text. -/
theorem found_of_open {lexer : Lexer} {error : LexError}
    (h : (layout lexer.start).error = some error) :
    lexer.found = .sound .eof 0 ∧ (layout lexer.stop).error = none := by
  have hrest : (layout lexer.start).after.rest = [] := (fault_of_layout h).2
  have hfound : lexer.found = .sound .eof 0 := by
    rw [found, toScan, hrest]
    exact scan_nil _ _
  have hstop : lexer.stop.rest = [] := by
    rw [stop, Cursor.skip, hrest]
    exact List.drop_nil
  have hnone : stretch? lexer.stop.rest = none := by
    rw [hstop]
    rfl
  exact ⟨hfound, by rw [layout_of_none hnone]⟩

/-- Every lookahead records what is wrong with it and with the layout on both sides, or what
conceals that. -/
theorem Reached.records {text : String} {lexer : Lexer} (h : lexer.Reached text) :
    Records text lexer.current (layout lexer.start).error (layout lexer.stop).error where
  before := h.openCommentsBefore_eq
  behind := h.openCommentsBehind_eq
  error := by
    rw [h.placed.fault?_eq, h.placed.span_eq, h.placed.current_eq]
    rfl
  frontFault := fun _ herror => (fault_of_layout herror).1
  backFault := fun _ herror => (fault_of_layout herror).1
  alone := by
    intro hfront
    obtain ⟨error, herror⟩ := Option.ne_none_iff_exists'.mp hfront
    obtain ⟨hfound, hback⟩ := found_of_open herror
    refine ⟨?_, hback⟩
    rw [h.placed.fault?_eq, hfound]
    rfl

/-- A literal that is left open stands before a line break or before the end of the text. -/
theorem Reached.stops {text : String} {lexer : Lexer} (h : lexer.Reached text)
    (hopen : lexer.current.isLeftOpen = true) :
    ∃ after, lexer.current.StandsBefore text after ∧ (after = [] ∨ after.head? = some '\n') := by
  have hfault : lexer.found.fault ≠ none := by
    rw [← h.placed.fault?_eq]
    exact Option.isSome_iff_ne_none.mp hopen
  exact ⟨_, h.standsBefore, scan_stops hfault⟩

/-- Behind a comment that is left open nothing is left to be read. -/
theorem Reached.next_rest {text : String} {lexer : Lexer} (h : lexer.Reached text)
    (hopen : lexer.current.openCommentsBehind text ≠ []) : lexer.next.rest = [] := by
  rw [h.openCommentsBehind_eq] at hopen
  rw [h.placed.next_eq_after]
  cases hcase : (layout lexer.stop).error with
  | none =>
    rw [hcase] at hopen
    exact absurd rfl hopen
  | some error => exact (fault_of_layout hcase).2

/-- At most one token of a run conceals an error. -/
theorem Reads.pairwise_concealed {text : String} {tokens : List Token} {last : Lexer}
    (h : Reads (ofText text) tokens last) :
    tokens.Pairwise fun token later =>
      token.isConcealed text = true → later.isConcealed text = false := by
  induction h with
  | refl => exact .nil
  | relex mode before ih => exact ih
  | @take lexer tokens before ih =>
    refine List.pairwise_append.mpr ⟨ih, List.pairwise_singleton _ _, ?_⟩
    intro token hmem later hlater hconcealed
    obtain rfl := List.mem_singleton.mp hlater
    obtain ⟨front, back, rfl⟩ := List.append_of_mem hmem
    obtain ⟨earlier, hbefore, rfl, hafter⟩ := before.cut
    have hreached : earlier.Reached text := ⟨front, hbefore⟩
    have hbehind : earlier.current.openCommentsBehind text ≠ [] := by
      have hsplit := Bool.and_eq_true_iff.mp hconcealed
      simpa using hsplit.2
    -- nothing is left to be read there, so the later token is the end of the text
    have hrest := hreached.next_rest hbehind
    have heof := (hafter.take).ended (advance_placed earlier) hrest
    have hkind : lexer.current.kind = .eof :=
      heof.2 _ (List.mem_append_right _ (List.mem_singleton_self _))
    have hfault : lexer.current.fault? = none := by
      rw [Token.fault?, hkind]
      rfl
    rw [Token.isConcealed, Token.isLeftOpen, hfault]
    rfl

variable {text : String} {token : Token} {front back : Option LexError}

theorem Records.error_of_fault (h : Records text token front back) {fault : LexFault}
    (hfault : token.fault? = some fault) (hbehind : token.openCommentsBehind text = []) :
    token.error = some ⟨fault, token.span⟩ := by
  have hback : back = none := by
    cases back with
    | none => rfl
    | some error => cases h.behind.symm.trans hbehind
  rw [h.error, hback, hfault]
  rfl

/-- A comment that is left open is what its token records. -/
theorem Records.error_of_comment (h : Records text token front back) {span : Span}
    (hmem : span ∈ token.openComments text) :
    token.error = some ⟨.unterminatedComment, span⟩ := by
  have hcomment {found : Option LexError} (hspan : span ∈ (found.map (·.span)).toList)
      (hfound : ∀ error ∈ found, error.fault = .unterminatedComment) :
      found = some ⟨.unterminatedComment, span⟩ := by
    obtain ⟨error, rfl, rfl⟩ := Option.map_eq_some_iff.mp (Option.mem_toList.mp hspan)
    have hfault := hfound error rfl
    rw [← hfault]
  rcases List.mem_append.mp hmem with hbefore | hbehind
  · rw [h.before] at hbefore
    have hfront := hcomment hbefore h.frontFault
    obtain ⟨hnone, hback⟩ := h.alone (hfront ▸ Option.some_ne_none _)
    rw [h.error, hback, hnone, hfront]
    rfl
  · rw [h.behind] at hbehind
    have hback := hcomment hbehind h.backFault
    rw [h.error, hback]
    rfl

/-- A token records one error for all that is wrong, less the one that is concealed. -/
theorem Records.count (h : Records text token front back) :
    token.error.toList.length + (token.isConcealed text).toNat =
      token.isLeftOpen.toNat + (token.openComments text).length := by
  have hbefore := h.before
  have hbehind := h.behind
  rw [Token.isConcealed, Token.openComments, Token.isLeftOpen, hbefore, hbehind, h.error]
  cases front with
  | some error =>
    obtain ⟨hfault, hback⟩ := h.alone (Option.some_ne_none _)
    rw [hfault, hback]
    rfl
  | none => cases back <;> cases token.fault? <;> rfl

end Lexer

/-- One error each is recorded for all that is wrong in some tokens, less those concealed. -/
theorem length_errors_add {text : String} {tokens : List Token}
    (h : ∀ token ∈ tokens, ∃ front back, Lexer.Records text token front back) :
    (tokens.filterMap (·.error)).length + (tokens.filter (·.isConcealed text)).length =
      (tokens.filter (·.isLeftOpen)).length + (tokens.flatMap (·.openComments text)).length := by
  induction tokens with
  | nil => rfl
  | cons token rest ih =>
    obtain ⟨front, back, hrecords⟩ := h token List.mem_cons_self
    have htoken := hrecords.count
    have hrest := ih fun later hlater => h later (List.mem_cons_of_mem _ hlater)
    have hfilter (p : Token → Bool) :
        ((token :: rest).filter p).length = (p token).toNat + (rest.filter p).length := by
      rw [List.filter_cons]
      cases p token <;> simp [Nat.add_comm]
    have herrors : ((token :: rest).filterMap (·.error)).length =
        token.error.toList.length + (rest.filterMap (·.error)).length := by
      rw [List.filterMap_cons]
      cases token.error <;> simp [Nat.add_comm]
    rw [hfilter, hfilter, herrors, List.flatMap_cons, List.length_append]
    omega

/-- A literal is concealed by a comment that ends the text, so there is one at most. -/
theorem length_concealed_le {text : String} {tokens : List Token} {last : Lexer}
    (h : Lexer.Reads (.ofText text) tokens last) :
    (tokens.filter (·.isConcealed text)).length ≤ 1 := by
  have hpairwise := h.pairwise_concealed.filter (·.isConcealed text)
  have hall : ∀ token ∈ tokens.filter (·.isConcealed text), token.isConcealed text = true :=
    fun token hmem => (List.mem_filter.mp hmem).2
  generalize tokens.filter (·.isConcealed text) = concealed at hpairwise hall
  match concealed with
  | [] => exact Nat.zero_le 1
  | [token] => exact Nat.le_refl 1
  | first :: second :: rest =>
    have hfirst := hall first List.mem_cons_self
    have hsecond := hall second (List.mem_cons_of_mem _ List.mem_cons_self)
    have hnot := (List.pairwise_cons.mp hpairwise).1 second List.mem_cons_self hfirst
    rw [hsecond] at hnot
    cases hnot

/-- Every token that is a literal left open stands before a line break or before the end of the
text, and records its own fault unless the fault is concealed. Every comment that is left open is
recorded by the token next to it. So there is one error for each of them, less the concealed faults,
of which there is at most one. -/
theorem lexical_errors_recorded (text : String) :
    (∀ token ∈ tokenize text, token.isLeftOpen = true →
      ∃ after, token.StandsBefore text after ∧ (after = [] ∨ after.head? = some '\n')) ∧
    (∀ token ∈ tokenize text, ∀ fault, token.fault? = some fault →
      token.isConcealed text = false → token.error = some ⟨fault, token.span⟩) ∧
    (∀ token ∈ tokenize text, ∀ span ∈ token.openComments text,
      token.error = some ⟨.unterminatedComment, span⟩) ∧
    ((tokenize text).filterMap (·.error)).length +
        ((tokenize text).filter (·.isConcealed text)).length =
      ((tokenize text).filter (·.isLeftOpen)).length +
        ((tokenize text).flatMap (·.openComments text)).length ∧
    ((tokenize text).filter (·.isConcealed text)).length ≤ 1 := by
  have hrecords : ∀ token ∈ tokenize text, ∃ front back, Lexer.Records text token front back := by
    intro token hmem
    obtain ⟨lexer, hreached, rfl⟩ := exists_reached_of_mem_tokenize hmem
    exact ⟨_, _, hreached.records⟩
  refine ⟨?_, ?_, ?_, length_errors_add hrecords, ?_⟩
  · intro token hmem hopen
    obtain ⟨lexer, hreached, rfl⟩ := exists_reached_of_mem_tokenize hmem
    exact hreached.stops hopen
  · intro token hmem fault hfault hplain
    obtain ⟨front, back, htoken⟩ := hrecords token hmem
    have hbehind : token.openCommentsBehind text = [] := by
      rw [Token.isConcealed, Token.isLeftOpen, hfault] at hplain
      simpa using hplain
    exact htoken.error_of_fault hfault hbehind
  · intro token hmem span hspan
    obtain ⟨front, back, htoken⟩ := hrecords token hmem
    exact htoken.error_of_comment hspan
  · obtain ⟨last, hreads⟩ := exists_reads_tokenize text
    exact length_concealed_le hreads

/-- A string that is left open on its line, and a comment that is left open further on. -/
theorem openString_then_openComment_recorded :
    (tokenize "\"a\nb /*").map (·.fault?) = [some .unterminatedString, none, none] ∧
    (tokenize "\"a\nb /*").map (·.openComments "\"a\nb /*") = [[], [⟨5, 7⟩], []] ∧
    ((tokenize "\"a\nb /*").filterMap (·.error)).length +
        ((tokenize "\"a\nb /*").filter (·.isConcealed "\"a\nb /*")).length =
      ((tokenize "\"a\nb /*").filter (·.isLeftOpen)).length +
        ((tokenize "\"a\nb /*").flatMap (·.openComments "\"a\nb /*")).length :=
  ⟨by decide +kernel, by decide +kernel, (lexical_errors_recorded "\"a\nb /*").2.2.2.1⟩

/-- Where the comment comes right behind the literal, the token records the comment alone. -/
theorem openString_concealed :
    (tokenize "\"a\n/*").map (·.fault?) = [some .unterminatedString, none] ∧
    (tokenize "\"a\n/*").map (·.openComments "\"a\n/*") = [[⟨3, 5⟩], []] ∧
    (tokenize "\"a\n/*").map (·.error) = [some ⟨.unterminatedComment, ⟨3, 5⟩⟩, none] ∧
    ((tokenize "\"a\n/*").filterMap (·.error)).length ≠
      ((tokenize "\"a\n/*").filter (·.isLeftOpen)).length +
        ((tokenize "\"a\n/*").flatMap (·.openComments "\"a\n/*")).length := by
  decide +kernel

end ScriptTree
