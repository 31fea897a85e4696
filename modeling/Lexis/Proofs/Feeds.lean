/-
# A feed follows its scan

A parser may take tokens from a feed in two ways and look at the next one in
between, in any order.  However it goes about it, the feed answers as a scan
does that is asked over and over: with the token of the request whose number is
how many tokens have been handed out.  Looking hands out nothing, and an answer
of `next?` is missing exactly if `next?` itself has answered with the end of the
input before.

`FeedEvent`s record what has been asked and answered, and all of the above is
said about such a history: `handedOut` counts its tokens, `looksAhead` says
whether the last thing it tells of the next token is a look at it, and
`Source.expected` is what a call is to be answered with after it.  The feed after
a history is `Source.feedAt`, and one call leads from there to the feed after the
history with the call (`Source.answer_feedAt`).

A fresh feed that is drained hands out what a complete scan does
(`TokenFeed.drain_ofSource`).
-/

import Lexis.Proofs.Lexemes
import Lexis.TokenFeed

namespace Lexis

/-! ### Requests by number -/

namespace Scan

theorem after_succ (n : Nat) (s : Scan) : s.after (n + 1) = (s.after n).next.2 := by
  induction n generalizing s with
  | zero => rfl
  | succ n ih => rw [after, ih, after]

theorem after_add (m n : Nat) (s : Scan) : s.after (m + n) = (s.after m).after n := by
  induction m generalizing s with
  | zero => rw [Nat.zero_add]; rfl
  | succ m ih => rw [Nat.succ_add, after, ih]; rfl

/-- A finished scan answers with the end of the input and does not change. -/
theorem next_of_finished {s : Scan} (h : s.finished = true) :
    s.next = (Token.endOfInput s.position, s) := by
  rw [next, h]; rfl

theorem after_of_finished {s : Scan} (h : s.finished = true) (n : Nat) : s.after n = s := by
  induction n with
  | zero => rfl
  | succ n ih => rw [after, next_of_finished h, ih]

/-- A request answered with the end of the input finishes the scan. -/
theorem finished_next {s : Scan} (h : s.next.1.isEnd = true) : s.next.2.finished = true := by
  cases hf : s.finished with
  | true => rw [next_of_finished hf, hf]
  | false => rw [next_of_not_finished hf] at h ⊢; exact h

/-- **Every scan finishes.** -/
theorem exists_finished_after (s : Scan) : ∃ n, (s.after n).finished = true := by
  induction hn : s.reader.rest.length using Nat.strongRecOn generalizing s with
  | ind n ih =>
    cases hend : s.next.1.isEnd with
    | true => exact ⟨1, finished_next hend⟩
    | false =>
      obtain ⟨m, hm⟩ := ih _ (hn ▸ length_rest_next_lt hend) s.next.2 rfl
      exact ⟨m + 1, hm⟩

end Scan

namespace Source

/-- The scan of the unit after a number of requests. -/
def scanAfter (s : Source) (k : Nat) : Scan := (Scan.ofSource s).after k

/-- The answer to a request of the scan, the first one having the number zero. -/
def request (s : Source) (k : Nat) : Token := (s.scanAfter k).next.1

theorem next_scanAfter (s : Source) (k : Nat) :
    (s.scanAfter k).next = (s.request k, s.scanAfter (k + 1)) :=
  Prod.ext rfl (Scan.after_succ k _).symm

/-- From some request on all answers are the end of the input. -/
theorem exists_request_eq_endOfInput (s : Source) :
    ∃ n p, ∀ k, n ≤ k → s.request k = Token.endOfInput p := by
  obtain ⟨n, hn⟩ := (Scan.ofSource s).exists_finished_after
  refine ⟨n, (s.scanAfter n).position, fun k hk => ?_⟩
  obtain ⟨m, rfl⟩ := Nat.exists_eq_add_of_le hk
  rw [request, scanAfter, Scan.after_add, Scan.after_of_finished hn, Scan.next_of_finished hn]
  rfl

end Source

/-! ### Histories -/

/-- What can be asked of a feed. -/
inductive FeedCall
  /-- To hand out the next token, whatever it is. -/
  | take
  /-- To look at the next token. -/
  | look
  /-- To hand out the next token, up to the end of the input. -/
  | next
deriving DecidableEq, Repr

/-- A call and the token that it has been answered with, if it has been. -/
structure FeedEvent where
  /-- What has been asked. -/
  call : FeedCall
  /-- The answer. -/
  answer : Option Token

namespace FeedEvent

/-- Whether a token has been handed out. -/
def handsOut (e : FeedEvent) : Bool := e.call != .look && e.answer.isSome

/-- Whether `next?` has handed out the end of the input. -/
def endsNext (e : FeedEvent) : Bool := e.call == .next && e.answer.any Token.isEnd

end FeedEvent

/-- The number of tokens handed out. -/
def handedOut (history : List FeedEvent) : Nat := history.countP FeedEvent.handsOut

/-- Whether the next token has been looked at: nothing has been handed out since the
last look. -/
def looksAhead (history : List FeedEvent) : Bool :=
  history.foldl (fun looked e => e.call == .look || looked && !e.handsOut) false

/-- Whether `next?` has handed out the end of the input at some time. -/
def hasEnded (history : List FeedEvent) : Bool := history.any FeedEvent.endsNext

/-- What a call is to be answered with after a history. -/
def Source.expected (s : Source) (history : List FeedEvent) (call : FeedCall) : Option Token :=
  if call = .next ∧ hasEnded history = true then none else some (s.request (handedOut history))

section Concat

variable (history : List FeedEvent) (e : FeedEvent)

theorem handedOut_concat :
    handedOut (history ++ [e]) = handedOut history + if e.handsOut then 1 else 0 := by
  rw [handedOut, List.countP_append, List.countP_singleton, handedOut]

theorem looksAhead_concat :
    looksAhead (history ++ [e]) = (e.call == .look || looksAhead history && !e.handsOut) := by
  rw [looksAhead, List.foldl_append]
  rfl

theorem hasEnded_concat : hasEnded (history ++ [e]) = (hasEnded history || e.endsNext) := by
  rw [hasEnded, List.any_append, List.any_cons, List.any_nil, Bool.or_false, hasEnded]

end Concat

/-! ### Feeds and their histories -/

/-- The feed after a history: what has been asked for of the scan, the token that has
been looked at, and whether `next?` has ended. -/
def Source.feedAt (s : Source) (history : List FeedEvent) : TokenFeed :=
  if looksAhead history then
    ⟨s.scanAfter (handedOut history + 1), some (s.request (handedOut history)), hasEnded history⟩
  else ⟨s.scanAfter (handedOut history), none, hasEnded history⟩

namespace TokenFeed

/-- The answer to a call, and the feed after it. -/
def answer (f : TokenFeed) : FeedCall → Option Token × TokenFeed
  | .take => (some f.take.1, f.take.2)
  | .look => (some f.look.1, f.look.2)
  | .next => f.next?

/-- The feed after several calls, the first of them made first. -/
def afterCalls (f : TokenFeed) (calls : List FeedCall) : TokenFeed :=
  calls.foldl (fun f c => (f.answer c).2) f

/-- Several calls and what they are answered with. -/
def events (f : TokenFeed) : List FeedCall → List FeedEvent
  | [] => []
  | c :: cs => ⟨c, (f.answer c).1⟩ :: (f.answer c).2.events cs

theorem events_concat (f : TokenFeed) (calls : List FeedCall) (c : FeedCall) :
    f.events (calls ++ [c]) = f.events calls ++ [⟨c, ((f.afterCalls calls).answer c).1⟩] := by
  induction calls generalizing f with
  | nil => rfl
  | cons d ds ih => rw [List.cons_append, events, ih]; rfl

theorem afterCalls_concat (f : TokenFeed) (calls : List FeedCall) (c : FeedCall) :
    f.afterCalls (calls ++ [c]) = ((f.afterCalls calls).answer c).2 := by
  rw [afterCalls, List.foldl_append]
  rfl

end TokenFeed

namespace TokenFeed

theorem drain_of_exhausted {f : TokenFeed} (h : f.exhausted = true) : f.drain = ([], f) := by
  rw [drain]
  split
  · rfl
  · simp_all

theorem drain_of_not_exhausted {f : TokenFeed} (h : f.exhausted = false) :
    f.drain = (f.next?.1.toList ++ f.next?.2.drain.1, f.next?.2.drain.2) := by
  rw [drain]
  split
  · simp_all
  · rfl

/-- A feed that holds no token is drained by running its scan to the end. -/
theorem drain_eq_run (scan : Scan) :
    drain ⟨scan, none, false⟩ = (scan.run.1, ⟨scan.run.2, none, true⟩) := by
  induction hn : scan.reader.rest.length using Nat.strongRecOn generalizing scan with
  | ind n ih =>
    have hnext : next? ⟨scan, none, false⟩ =
        (some scan.next.1, ⟨scan.next.2, none, scan.next.1.isEnd⟩) := rfl
    rw [drain_of_not_exhausted rfl, hnext]
    cases hend : scan.next.1.isEnd with
    | true =>
      rw [drain_of_exhausted rfl, Scan.run_of_isEnd hend]
      rfl
    | false =>
      rw [ih _ (hn ▸ Scan.length_rest_next_lt hend) scan.next.2 rfl, Scan.run_of_not_isEnd hend]
      rfl

/-- **A drained feed** has handed out the tokens of a complete scan, the end of the input
last. -/
theorem drain_ofSource (s : Source) :
    (ofSource s).drain = (s.scan.1, ⟨s.scan.2, none, true⟩) :=
  drain_eq_run (Scan.ofSource s)

end TokenFeed

namespace Source

variable (s : Source)

section Past

variable (past : List FeedEvent)

/-- The next token is handed out, and none is held then. -/
theorem take_feedAt : (s.feedAt past).take = (s.request (handedOut past),
    ⟨s.scanAfter (handedOut past + 1), none, hasEnded past⟩) := by
  unfold feedAt
  split
  · rfl
  · simp only [TokenFeed.take, s.next_scanAfter]

/-- The next token is looked at, and it is held then. -/
theorem look_feedAt : (s.feedAt past).look = (s.request (handedOut past),
    ⟨s.scanAfter (handedOut past + 1), some (s.request (handedOut past)),
      hasEnded past⟩) := by
  unfold feedAt
  split
  · rfl
  · simp only [TokenFeed.look, s.next_scanAfter]

theorem exhausted_feedAt : (s.feedAt past).exhausted = hasEnded past := by
  unfold feedAt
  split <;> rfl

/-- A call that hands out the next token leads to the feed after it. -/
theorem feedAt_concat_of_handsOut {e : FeedEvent} (h : e.handsOut = true) :
    s.feedAt (past ++ [e]) = ⟨s.scanAfter (handedOut past + 1), none,
      hasEnded past || e.endsNext⟩ := by
  have hlook : (e.call == .look) = false := by
    simp only [FeedEvent.handsOut, Bool.and_eq_true, bne, Bool.not_eq_true'] at h
    exact h.1
  rw [feedAt, looksAhead_concat, handedOut_concat, hasEnded_concat, h, hlook]
  simp

/-- **One call** is answered as its history demands, and leads to the feed after the
history with the call. -/
theorem answer_feedAt (c : FeedCall) :
    (s.feedAt past).answer c =
      (s.expected past c, s.feedAt (past ++ [⟨c, s.expected past c⟩])) := by
  cases c with
  | take =>
    rw [feedAt_concat_of_handsOut _ _ rfl, TokenFeed.answer, s.take_feedAt]
    simp [expected, FeedEvent.endsNext]
  | look =>
    rw [TokenFeed.answer, s.look_feedAt, feedAt, looksAhead_concat, handedOut_concat,
      hasEnded_concat]
    simp [expected, FeedEvent.handsOut, FeedEvent.endsNext]
  | next =>
    rw [TokenFeed.answer, TokenFeed.next?, s.exhausted_feedAt, s.take_feedAt]
    cases he : hasEnded past with
    | true =>
      rw [feedAt, feedAt, looksAhead_concat, handedOut_concat, hasEnded_concat]
      simp [expected, FeedEvent.handsOut, FeedEvent.endsNext, he]
    | false =>
      have hanswer : s.expected past .next = some (s.request (handedOut past)) := by
        simp [expected, he]
      rw [hanswer, feedAt_concat_of_handsOut _ _ rfl, he]
      simp [FeedEvent.endsNext]

end Past

/-- The history of some calls to a fresh feed of the unit. -/
def history (calls : List FeedCall) : List FeedEvent := (TokenFeed.ofSource s).events calls

variable (calls : List FeedCall) (c : FeedCall)

/-- **Any calls** lead to the feed after their history. -/
theorem afterCalls_ofSource :
    (TokenFeed.ofSource s).afterCalls calls = s.feedAt (s.history calls) := by
  induction calls using List.reverseRecOn with
  | nil => rfl
  | append_singleton calls c ih =>
    rw [history, TokenFeed.events_concat, TokenFeed.afterCalls_concat, ih, answer_feedAt]
    rfl

theorem history_concat : s.history (calls ++ [c]) =
    s.history calls ++ [⟨c, s.expected (s.history calls) c⟩] := by
  rw [history, TokenFeed.events_concat, afterCalls_ofSource, answer_feedAt]
  rfl

/-! ### What a history tells -/

/-- A call that `next?` has not been ended for hands out the next token, or looks at it. -/
theorem expected_of_isSome {history : List FeedEvent}
    (h : (s.expected history c).isSome = true) :
    s.expected history c = some (s.request (handedOut history)) := by
  rw [expected] at h ⊢
  split
  · rename_i hended
    rw [if_pos hended] at h
    simp at h
  · rfl

/-- The tokens handed out are the first answers of the scan, each of them once. -/
theorem filterMap_answer_history :
    ((s.history calls).filter FeedEvent.handsOut).filterMap FeedEvent.answer =
      (List.range (handedOut (s.history calls))).map s.request := by
  induction calls using List.reverseRecOn with
  | nil => rfl
  | append_singleton calls c ih =>
    rw [history_concat, handedOut_concat, List.filter_append, List.filterMap_append, ih]
    cases hout : FeedEvent.handsOut ⟨c, s.expected (s.history calls) c⟩ with
    | true =>
      have hsome : (s.expected (s.history calls) c).isSome = true :=
        (Bool.and_eq_true_iff.1 hout).2
      rw [if_pos rfl, List.range_succ, List.map_append, List.filter_cons_of_pos hout,
        List.filter_nil, s.expected_of_isSome c hsome]
      rfl
    | false =>
      rw [List.filter_cons_of_neg (by simp [hout])]
      simp

/-- `next?` hands out the end of the input when it ends, and never again. -/
theorem countP_endsNext_history :
    (s.history calls).countP FeedEvent.endsNext = (hasEnded (s.history calls)).toNat := by
  induction calls using List.reverseRecOn with
  | nil => rfl
  | append_singleton calls c ih =>
    rw [history_concat, List.countP_append, List.countP_singleton, ih, hasEnded_concat]
    cases hended : hasEnded (s.history calls) with
    | true =>
      have hnot : FeedEvent.endsNext ⟨c, s.expected (s.history calls) c⟩ = false := by
        cases c <;> simp [FeedEvent.endsNext, expected, hended]
      rw [hnot]
      rfl
    | false =>
      cases FeedEvent.endsNext ⟨c, s.expected (s.history calls) c⟩ <;> rfl

/-- An answer of `next?` is missing only after `next?` has handed out the end. -/
theorem hasEnded_of_mem_history {e : FeedEvent} (h : e ∈ s.history calls) (hnext : e.call = .next)
    (hnone : e.answer = none) : hasEnded (s.history calls) = true := by
  induction calls using List.reverseRecOn with
  | nil => simp [history, TokenFeed.events] at h
  | append_singleton calls c ih =>
    rw [history_concat] at h ⊢
    rw [hasEnded_concat, Bool.or_eq_true]
    rcases List.mem_append.1 h with h | h
    · exact Or.inl (ih h)
    · obtain rfl := List.mem_singleton.1 h
      refine Or.inl (by_contra fun hended => ?_)
      simp [expected, hended] at hnone

/-- Once an answer of `next?` is missing, all further ones are. -/
theorem pairwise_history : (s.history calls).Pairwise fun d e =>
    d.call = .next → d.answer = none → e.call = .next → e.answer = none := by
  induction calls using List.reverseRecOn with
  | nil => exact List.Pairwise.nil
  | append_singleton calls c ih =>
    rw [history_concat]
    refine List.pairwise_append.2 ⟨ih, List.pairwise_singleton _ _, ?_⟩
    intro d hd e he hdnext hdnone henext
    obtain rfl := List.mem_singleton.1 he
    exact if_pos ⟨henext, s.hasEnded_of_mem_history calls hd hdnext hdnone⟩

end Source

/-- **A feed answers as its scan does, in whatever order it is called.**  The
answers of a scan that is asked over and over are the end of the input from some
request on.  After any calls to a fresh feed, with `k` the number of tokens handed
out,

* every call is answered with the answer `k` of the scan, but for `next?` after it
  has itself handed out the end of the input;
* the errors and the trivia are those of the scan after `k` requests, or after
  `k + 1` if the next token has been looked at;
* the tokens handed out are the answers before `k`, each of them once and in order;
* `next?` has handed out the end of the input at most once, and once an answer of it
  was missing, all further ones were. -/
theorem feed_follows_scan (s : Source) :
    (∃ n p, ∀ k, n ≤ k → s.request k = Token.endOfInput p) ∧
      ∀ calls : List FeedCall,
        (∀ c, (((TokenFeed.ofSource s).afterCalls calls).answer c).1 =
          if c = .next ∧ hasEnded (s.history calls) = true then none
          else some (s.request (handedOut (s.history calls)))) ∧
        ((TokenFeed.ofSource s).afterCalls calls).errors =
          (s.scanAfter (handedOut (s.history calls) +
            if looksAhead (s.history calls) then 1 else 0)).errors ∧
        ((TokenFeed.ofSource s).afterCalls calls).trivia =
          (s.scanAfter (handedOut (s.history calls) +
            if looksAhead (s.history calls) then 1 else 0)).trivia ∧
        ((s.history calls).filter FeedEvent.handsOut).filterMap FeedEvent.answer =
          (List.range (handedOut (s.history calls))).map s.request ∧
        (s.history calls).countP FeedEvent.endsNext ≤ 1 ∧
        (s.history calls).Pairwise fun d e =>
          d.call = .next → d.answer = none → e.call = .next → e.answer = none := by
  refine ⟨s.exists_request_eq_endOfInput, fun calls => ?_⟩
  have hscan : ((TokenFeed.ofSource s).afterCalls calls).scan =
      s.scanAfter (handedOut (s.history calls) +
        if looksAhead (s.history calls) then 1 else 0) := by
    rw [s.afterCalls_ofSource, Source.feedAt]
    split <;> rfl
  refine ⟨fun c => ?_, congrArg Scan.errors hscan, congrArg Scan.trivia hscan,
    s.filterMap_answer_history calls, ?_, s.pairwise_history calls⟩
  · rw [s.afterCalls_ofSource, s.answer_feedAt]
    rfl
  · rw [s.countP_endsNext_history]
    exact Bool.toNat_le _

end Lexis
