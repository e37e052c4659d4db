import A17.Utils.PoolRuns
import A17.Dispatch.SendLengths

/-!
# The way of a send buffer

`send` and the packing loop of `queryMissingTopics` take a buffer from `sendPool_` and give it to `_send`, whose
completion handler sends what is left or returns the buffer. On an error it does neither: the buffer is lost
(`Fails`). As long as none occurs, the buffers out of the pool are those of the sends in flight (`Returned`).

The loop is that of `Directory.sendRequests` with its buffers, and starts sends of the same messages (`texts_query`).
A send has a serial number, which the code does not have, and keeps what the socket has taken of its message.
`osMalloc` is the `::malloc` that the pool falls back on.
-/

open Std

namespace A17.Dispatch
open Utils

def DEFAULT_POOL_BUFFER_COUNT : Nat := 64

/-- An `async_send_to` in flight: of `len` bytes from `buf + pos`, where `buf` has `text` in it. -/
structure Send where
  serial : Nat
  buf : Nat
  text : Str
  pos : Nat
  len : Nat
  transferred : Str
deriving DecidableEq

structure Sending where
  sendPool : PoolState
  inFlight : List Send := []
  mallocs : Nat := 0
  started : Nat := 0
  /-- The serial numbers of the sends that came to an end, and those of which the buffer was freed. -/
  finished : List Nat := []
  freed : List Nat := []
  delivered : List Send := []

inductive SendOp where
  | send (text : Str)
  | query (d : Directory) (requests : List Str)
  /-- A send in flight completes, with the number of bytes sent or an error. -/
  | complete (i : Nat) (result : Except Nat Nat)

namespace Sending

def init (pool : Nat) : Sending :=
  { sendPool := { pool := .new pool EVENT_BUFFER_SIZE DEFAULT_POOL_BUFFER_COUNT } }

/-- The first `_send` of a buffer. -/
def start (s : Sending) (buf : Nat) (text : Str) : Sending :=
  { s with
    inFlight := s.inFlight ++ [⟨s.started, buf, text, 0, text.length, []⟩]
    started := s.started + 1 }

/-- The completion handler of `_send`, for the send `x` that is no longer in flight. -/
def handler (s : Sending) (x : Send) (result : Except Nat Nat) : Sending :=
  match result with
  | .error _ => { s with finished := s.finished ++ [x.serial] }
  | .ok bytes =>
    let x := { x with transferred := x.transferred ++ ((x.text.drop x.pos).take x.len).take bytes }
    if bytes < x.len then
      { s with inFlight := s.inFlight ++ [{ x with pos := x.pos + bytes, len := x.len - bytes }] }
    else
      { s with
        sendPool := s.sendPool.step (.free x.buf)
        finished := s.finished ++ [x.serial], freed := s.freed ++ [x.serial], delivered := s.delivered ++ [x] }

def complete (s : Sending) (i : Nat) (result : Except Nat Nat) : Sending :=
  match s.inFlight[i]? with
  | none => s
  | some x => { s with inFlight := s.inFlight.eraseIdx i }.handler x result

section
variable (osMalloc : Nat → Nat)

def malloc (s : Sending) : Nat × Sending :=
  let os := osMalloc s.mallocs
  ((s.sendPool.pool.malloc os).1, { s with sendPool := s.sendPool.step (.malloc os), mallocs := s.mallocs + 1 })

def send (s : Sending) (text : Str) : Sending :=
  let (buf, s) := s.malloc osMalloc
  s.start buf text

/-- The locals of the packing loop, with the buffer it has in hand. -/
structure Packing where
  acc : Directory × Directory.QueryBuffer
  buf : Option Nat := none

/-- `_send(multicastEndpoint_, buf, 0, pos)`. -/
def flush (s : Sending) (p : Packing) : Sending :=
  match p.buf with
  | some buf => s.start buf ((p.acc.2.buf.getD []).take p.acc.2.pos)
  | none => s

def pack (sp : Sending × Packing) (topicName : Str) : Sending × Packing :=
  let acc := Directory.packTopic sp.2.acc topicName
  if sp.2.acc.2.buf.isNone ∨ sp.2.acc.2.pos + 1 + topicName.length ≥ EVENT_BUFFER_SIZE ∨ sp.2.acc.2.count ≥ 4 then
    let (buf, s) := (sp.1.flush sp.2).malloc osMalloc
    (s, { acc, buf := some buf })
  else (sp.1, { sp.2 with acc })

def query (s : Sending) (d : Directory) (requests : List Str) : Sending :=
  let (s, p) := requests.foldl (pack osMalloc) (s, { acc := (d, {}) })
  if p.acc.2.pos > p.acc.2.start then s.flush p else s

def step (s : Sending) : SendOp → Sending
  | .send text => s.send osMalloc text
  | .query d requests => s.query osMalloc d requests
  | .complete i result => s.complete i result

end

/-- The buffers out of the pool are those in flight, each was freed once when its send was finished, and a
message that was sent was sent as it is. -/
structure Returned (s : Sending) : Prop where
  outstanding : s.sendPool.outstanding.Perm (s.inFlight.map Send.buf)
  freed : ∀ n, s.freed.count n = if n ∈ s.finished then 1 else 0
  delivered : ∀ x ∈ s.delivered, x.transferred = x.text
  /-- A buffer in flight is neither in the ring nor in flight for another send. -/
  apart : (s.sendPool.pool.freeBuffers ++ s.sendPool.held).Nodup
  all : s.inFlight = [] → s.sendPool.pool.freeBuffers.Perm s.sendPool.pool.buffers

/-- A send in flight completes with an error. -/
def Fails (s : Sending) : SendOp → Prop
  | .complete i (.error _) => i < s.inFlight.length
  | _ => False

/-! ## The messages of a query

`query` starts a send for every datagram that `sendRequests` of the directory hands to the socket. -/

def texts (s : Sending) : List Str := s.inFlight.map Send.text

@[simp] theorem texts_start (s : Sending) (buf : Nat) (text : Str) : (s.start buf text).texts = s.texts ++ [text] := by
  simp [texts, start]

/-- What was started since `s` is what was sent since `d`, and there is a buffer in hand if the loop has one. -/
structure Mirrors (s : Sending) (d : Directory) (sp : Sending × Packing) : Prop where
  texts : ∃ new, sp.1.texts = s.texts ++ new ∧
    sp.2.acc.1.sent.map Datagram.text = d.sent.map Datagram.text ++ new
  buf : sp.2.buf.isSome = sp.2.acc.2.buf.isSome
  idle : sp.2.acc.2.buf = none → sp.2.acc.2.pos = sp.2.acc.2.start

namespace Mirrors
variable {s : Sending} {d : Directory} {sp : Sending × Packing}

/-- A buffer is sent, by both. -/
theorem flush (h : Mirrors s d sp) {buf : Str} (hbuf : sp.2.acc.2.buf = some buf) :
    ∃ new, (sp.1.flush sp.2).texts = s.texts ++ new ∧
      (sp.2.acc.1.send_ (buf.take sp.2.acc.2.pos)).sent.map Datagram.text = d.sent.map Datagram.text ++ new := by
  obtain ⟨new, hs, hd⟩ := h.texts
  obtain ⟨b, hb⟩ := Option.isSome_iff_exists.1 (h.buf.trans (by rw [hbuf]; rfl))
  refine ⟨new ++ [buf.take sp.2.acc.2.pos], ?_, ?_⟩
  · rw [Sending.flush, hb]
    dsimp only
    rw [texts_start, hs, hbuf, List.append_assoc]
    rfl
  · rw [Directory.send_, List.map_append, hd, List.append_assoc]
    rfl

theorem pack (h : Mirrors s d sp) (osMalloc : Nat → Nat) (topicName : Str) :
    Mirrors s d (pack osMalloc sp topicName) := by
  rw [Sending.pack]
  dsimp only
  split
  · next hf =>
    refine ⟨?_, ?_, ?_⟩
    · dsimp only
      rw [Directory.packTopic, if_pos hf]
      cases hbuf : sp.2.acc.2.buf with
      | some buf => exact h.flush hbuf
      | none =>
        have hnone : sp.2.buf = none := by
          have := h.buf
          rwa [hbuf, Option.isSome_none, Option.isSome_eq_false_iff, Option.isNone_iff_eq_none] at this
        rw [Sending.flush, hnone]
        exact h.texts
    · rfl
    · simp [Directory.packTopic]
  · next hf =>
    have hbuf := h.buf
    have hsome : sp.2.acc.2.buf.isSome := (Directory.room_of_not_fresh (q := sp.2.acc.2) hf).1
    refine ⟨?_, ?_, ?_⟩
    · dsimp only
      rw [Directory.packTopic, if_neg hf]
      exact h.texts
    · exact hbuf.trans hsome
    · simp [Directory.packTopic]

theorem foldl_pack (osMalloc : Nat → Nat) (requests : List Str) (h : Mirrors s d sp) :
    Mirrors s d (requests.foldl (Sending.pack osMalloc) sp) := by
  induction requests generalizing sp with
  | nil => exact h
  | cons topicName requests ih => exact ih (h.pack osMalloc topicName)

end Mirrors

theorem foldl_pack_acc (osMalloc : Nat → Nat) (requests : List Str) (sp : Sending × Packing) :
    (requests.foldl (pack osMalloc) sp).2.acc = requests.foldl Directory.packTopic sp.2.acc := by
  induction requests generalizing sp with
  | nil => rfl
  | cons topicName requests ih =>
    rw [List.foldl_cons, List.foldl_cons, ih]
    congr 1
    rw [pack]
    dsimp only
    split <;> rfl

/-- The sends that a query starts are the datagrams that the directory sends. -/
theorem texts_query (osMalloc : Nat → Nat) (s : Sending) (d : Directory) (requests : List Str) :
    ∃ new, (s.query osMalloc d requests).texts = s.texts ++ new ∧
      (d.sendRequests requests).sent.map Datagram.text = d.sent.map Datagram.text ++ new := by
  have hinit : Mirrors s d (s, { acc := (d, {}) }) := ⟨⟨[], by simp, by simp⟩, rfl, fun _ => rfl⟩
  have h := hinit.foldl_pack osMalloc requests
  have hacc := foldl_pack_acc osMalloc requests (s, { acc := (d, {}) })
  rw [query, Directory.sendRequests, ← hacc]
  generalize requests.foldl (pack osMalloc) (s, { acc := (d, {}) }) = r at h ⊢
  dsimp only
  split
  · next hpos =>
    cases hbuf : r.2.acc.2.buf with
    | none => exact absurd (h.idle hbuf) hpos.ne'
    | some buf => exact h.flush hbuf
  · exact h.texts

/-! ## The invariant -/

/-- `Returned`, while the buffers `hand` are being filled: with what the next step needs of the pool and of the
sends in flight. -/
structure Inv (pool : Nat) (hand : List Nat) (s : Sending) : Prop where
  accounts : s.sendPool.Inv (.new pool EVENT_BUFFER_SIZE DEFAULT_POOL_BUFFER_COUNT)
  inPool : ∀ ptr, s.sendPool.pool.InPool ptr ↔
    (BufferPool.new pool EVENT_BUFFER_SIZE DEFAULT_POOL_BUFFER_COUNT).InPool ptr
  outstanding : s.sendPool.outstanding.Perm (hand ++ s.inFlight.map Send.buf)
  serials : (s.inFlight.map Send.serial).Nodup
  pending : ∀ x ∈ s.inFlight, x.serial < s.started ∧ x.serial ∉ s.finished
  finished : ∀ n ∈ s.finished, n < s.started
  freed : ∀ n, s.freed.count n = if n ∈ s.finished then 1 else 0
  delivered : ∀ x ∈ s.delivered, x.transferred = x.text
  parts : ∀ x ∈ s.inFlight, x.pos + x.len = x.text.length ∧ x.transferred = x.text.take x.pos

namespace Inv
variable {pool : Nat} {hand : List Nat} {s : Sending}

theorem toReturned (h : Inv pool [] s) : s.Returned where
  outstanding := h.outstanding
  freed := h.freed
  delivered := h.delivered
  apart := h.accounts.conserved.nodup_iff.2 (BufferPool.nodup_buffers h.accounts.pool_inv.size_pos)
  all hnil := by
    have hout : s.sendPool.outstanding = [] := by simpa [hnil] using h.outstanding
    have hheld : s.sendPool.held = [] := by rw [PoolState.held, hout]; rfl
    simpa [hheld] using h.accounts.conserved

theorem init (hmem : BufferPool.InMemory pool EVENT_BUFFER_SIZE DEFAULT_POOL_BUFFER_COUNT) :
    Inv pool [] (Sending.init pool) where
  accounts := PoolState.Inv.init (by decide) (by decide) hmem
  inPool _ := Iff.rfl
  outstanding := List.Perm.refl _
  serials := List.nodup_nil
  pending := by simp [Sending.init]
  finished := by simp [Sending.init]
  freed _ := rfl
  delivered := by simp [Sending.init]
  parts := by simp [Sending.init]

/-- The order of the sends in flight does not matter. -/
theorem perm (h : Inv pool hand s) {inFlight : List Send} (hp : inFlight.Perm s.inFlight) :
    Inv pool hand { s with inFlight } where
  accounts := h.accounts
  inPool := h.inPool
  outstanding := h.outstanding.trans ((hp.map Send.buf).symm.append_left hand)
  serials := (hp.map Send.serial).nodup_iff.2 h.serials
  pending x hx := h.pending x (hp.subset hx)
  finished := h.finished
  freed := h.freed
  delivered := h.delivered
  parts x hx := h.parts x (hp.subset hx)

theorem malloc (h : Inv pool hand s) {osMalloc : Nat → Nat}
    (hos : ∀ n, ¬ (BufferPool.new pool EVENT_BUFFER_SIZE DEFAULT_POOL_BUFFER_COUNT).InPool (osMalloc n)) :
    Inv pool ((s.malloc osMalloc).1 :: hand) (s.malloc osMalloc).2 where
  accounts := h.accounts.malloc fun hin => hos s.mallocs ((h.inPool _).1 hin)
  inPool ptr := BufferPool.inPool_malloc_snd.trans (h.inPool ptr)
  outstanding := h.outstanding.cons _
  serials := h.serials
  pending := h.pending
  finished := h.finished
  freed := h.freed
  delivered := h.delivered
  parts := h.parts

theorem start {buf : Nat} (h : Inv pool (buf :: hand) s) (text : Str) : Inv pool hand (s.start buf text) where
  accounts := h.accounts
  inPool := h.inPool
  outstanding := by
    refine h.outstanding.trans ?_
    show (buf :: hand ++ _).Perm (hand ++ (s.inFlight ++ [_]).map Send.buf)
    rw [List.map_append, ← List.append_assoc]
    exact (List.perm_append_singleton buf _).symm
  serials := by
    show ((s.inFlight ++ [_]).map Send.serial).Nodup
    rw [List.map_append, List.map_singleton, List.nodup_append]
    refine ⟨h.serials, List.nodup_singleton _, ?_⟩
    intro n hn m hm
    obtain ⟨x, hx, rfl⟩ := List.mem_map.1 hn
    rw [List.mem_singleton.1 hm]
    exact (h.pending x hx).1.ne
  pending := by
    intro x hx
    rcases List.mem_append.1 hx with hx | hx
    · exact ⟨(h.pending x hx).1.trans (Nat.lt_succ_self _), (h.pending x hx).2⟩
    · rw [List.mem_singleton.1 hx]
      exact ⟨Nat.lt_succ_self _, fun hf => lt_irrefl _ (h.finished _ hf)⟩
  finished n hn := (h.finished n hn).trans (Nat.lt_succ_self _)
  freed := h.freed
  delivered := h.delivered
  parts := by
    intro x hx
    rcases List.mem_append.1 hx with hx | hx
    · exact h.parts x hx
    · rw [List.mem_singleton.1 hx]
      exact ⟨Nat.zero_add _, rfl⟩

/-! ### Completions -/

section
variable {x : Send} {rest : List Send} {bytes : Nat}

/-- The rest of the message is sent from where the socket stopped. -/
theorem resend (h : Inv pool hand { s with inFlight := x :: rest }) (hb : bytes < x.len) :
    Inv pool hand { s with inFlight := rest ++ [{ x with
      transferred := x.transferred ++ ((x.text.drop x.pos).take x.len).take bytes
      pos := x.pos + bytes, len := x.len - bytes }] } := by
  obtain ⟨hlen, htaken⟩ := h.parts x List.mem_cons_self
  have hx := h.pending x List.mem_cons_self
  have hbuf := h.outstanding
  have hserial := h.serials
  rw [List.map_cons] at hbuf hserial
  refine ⟨h.accounts, h.inPool, ?_, ?_, ?_, h.finished, h.freed, h.delivered, ?_⟩
  · refine hbuf.trans (List.Perm.append_left hand ?_)
    rw [List.map_append]
    exact (List.perm_append_singleton x.buf _).symm
  · rw [List.map_append]
    exact (List.perm_append_singleton x.serial _).nodup_iff.2 hserial
  · intro y hy
    rcases List.mem_append.1 hy with hy | hy
    · exact h.pending y (List.mem_cons_of_mem _ hy)
    · rw [List.mem_singleton.1 hy]
      exact hx
  · intro y hy
    rcases List.mem_append.1 hy with hy | hy
    · exact h.parts y (List.mem_cons_of_mem _ hy)
    · rw [List.mem_singleton.1 hy]
      refine ⟨by dsimp only; omega, ?_⟩
      dsimp only
      rw [htaken, List.take_take, Nat.min_eq_left hb.le, ← List.take_add]

/-- The socket has taken the whole message, and the buffer goes back. -/
theorem finish (h : Inv pool hand { s with inFlight := x :: rest }) (hb : x.len ≤ bytes) :
    Inv pool hand { s with
      inFlight := rest
      sendPool := s.sendPool.step (.free x.buf)
      finished := s.finished ++ [x.serial], freed := s.freed ++ [x.serial]
      delivered := s.delivered ++ [{ x with
        transferred := x.transferred ++ ((x.text.drop x.pos).take x.len).take bytes }] } := by
  obtain ⟨hlen, htaken⟩ := h.parts x List.mem_cons_self
  obtain ⟨hlt, hpending⟩ := h.pending x List.mem_cons_self
  have hbuf := h.outstanding
  have hserial := h.serials
  rw [List.map_cons] at hbuf hserial
  have hmem : x.buf ∈ s.sendPool.outstanding := hbuf.symm.subset (by simp)
  refine ⟨h.accounts.free hmem, fun ptr => BufferPool.inPool_free.trans (h.inPool ptr), ?_,
    (List.nodup_cons.1 hserial).2, ?_, ?_, ?_, ?_, fun y hy => h.parts y (List.mem_cons_of_mem _ hy)⟩
  · show (s.sendPool.outstanding.erase x.buf).Perm _
    have hmiddle : s.sendPool.outstanding.Perm (x.buf :: (hand ++ rest.map Send.buf)) := hbuf.trans List.perm_middle
    have herase := hmiddle.erase x.buf
    rwa [List.erase_cons_head] at herase
  · intro y hy
    obtain ⟨hylt, hyp⟩ := h.pending y (List.mem_cons_of_mem _ hy)
    refine ⟨hylt, fun hf => ?_⟩
    rcases List.mem_append.1 hf with hf | hf
    · exact hyp hf
    · refine (List.nodup_cons.1 hserial).1 ?_
      rw [← List.mem_singleton.1 hf]
      exact List.mem_map_of_mem hy
  · intro n hn
    rcases List.mem_append.1 hn with hn | hn
    · exact h.finished n hn
    · rw [List.mem_singleton.1 hn]
      exact hlt
  · intro n
    have hf := h.freed n
    show (s.freed ++ [x.serial]).count n = if n ∈ s.finished ++ [x.serial] then 1 else 0
    rw [List.count_append, show s.freed.count n = _ from hf]
    by_cases hn : n = x.serial
    · subst hn
      rw [if_neg hpending]
      simp
    · simp [hn, Ne.symm hn]
  · intro y hy
    rcases List.mem_append.1 hy with hy | hy
    · exact h.delivered y hy
    · rw [List.mem_singleton.1 hy]
      have hdrop : (x.text.drop x.pos).length = x.len := by
        rw [List.length_drop]
        omega
      dsimp only
      rw [htaken, List.take_of_length_le hdrop.le, List.take_of_length_le (hdrop.le.trans hb), List.take_append_drop]

theorem complete (h : Inv pool hand s) {i : Nat} {result : Except Nat Nat} (hq : ¬ s.Fails (.complete i result)) :
    Inv pool hand (s.complete i result) := by
  rw [Sending.complete]
  split
  · exact h
  · next x hx =>
    obtain ⟨hi, rfl⟩ := List.getElem?_eq_some_iff.1 hx
    have hperm := h.perm (List.getElem_cons_eraseIdx_perm hi)
    cases result with
    | error ec => exact absurd hi hq
    | ok bytes =>
      rw [handler]
      dsimp only
      split
      · next hb => exact hperm.resend hb
      · next hb => exact hperm.finish (Nat.not_lt.1 hb)

end

/-! ### The producers -/

section
variable {osMalloc : Nat → Nat}
  (hos : ∀ n, ¬ (BufferPool.new pool EVENT_BUFFER_SIZE DEFAULT_POOL_BUFFER_COUNT).InPool (osMalloc n))
include hos

theorem send (h : Inv pool hand s) (text : Str) : Inv pool hand (s.send osMalloc text) :=
  (h.malloc hos).start text

omit hos in
theorem flush {p : Packing} (h : Inv pool p.buf.toList s) : Inv pool [] (s.flush p) := by
  rw [Sending.flush]
  split
  · next buf hbuf =>
    rw [hbuf] at h
    exact h.start _
  · next hbuf =>
    rw [hbuf] at h
    exact h

theorem pack {p : Packing} (h : Inv pool p.buf.toList s) (topicName : Str) :
    Inv pool (Sending.pack osMalloc (s, p) topicName).2.buf.toList (Sending.pack osMalloc (s, p) topicName).1 := by
  rw [Sending.pack]
  dsimp only
  split
  · exact h.flush.malloc hos
  · exact h

end
end Inv

/-- A buffer in hand has a name in it. -/
def Packing.Started (p : Packing) : Prop := p.buf.isSome → p.acc.2.start < p.acc.2.pos

theorem started_pack (osMalloc : Nat → Nat) (s : Sending) {p : Packing} (h : p.Started) (topicName : Str) :
    (pack osMalloc (s, p) topicName).2.Started := by
  have hpos : ∀ q : Directory.QueryBuffer, q.start ≤ q.pos → q.start < q.pos + 1 + topicName.length := by
    intro q hq
    omega
  rw [pack]
  dsimp only
  split
  · next hf =>
    intro _
    dsimp only
    rw [Directory.packTopic, if_pos hf]
    exact hpos ⟨_, 0, _, _⟩ le_rfl
  · next hf =>
    intro hbuf
    dsimp only
    rw [Directory.packTopic, if_neg hf]
    exact hpos _ (h hbuf).le

section
variable {pool : Nat} {osMalloc : Nat → Nat}
  (hos : ∀ n, ¬ (BufferPool.new pool EVENT_BUFFER_SIZE DEFAULT_POOL_BUFFER_COUNT).InPool (osMalloc n))
include hos

/-- Along the loop, only the buffer in hand is neither in the pool nor in flight. -/
theorem foldl_pack (requests : List Str) (sp : Sending × Packing) (hs : Inv pool sp.2.buf.toList sp.1)
    (hp : sp.2.Started) : Inv pool (requests.foldl (pack osMalloc) sp).2.buf.toList
      (requests.foldl (pack osMalloc) sp).1 ∧ (requests.foldl (pack osMalloc) sp).2.Started := by
  induction requests generalizing sp with
  | nil => exact ⟨hs, hp⟩
  | cons topicName requests ih => exact ih _ (hs.pack hos topicName) (started_pack osMalloc sp.1 hp topicName)

theorem Inv.query {s : Sending} (h : Inv pool [] s) (d : Directory) (requests : List Str) :
    Inv pool [] (s.query osMalloc d requests) := by
  obtain ⟨hs, hp⟩ := foldl_pack hos requests (s, { acc := (d, {}) }) h (by simp [Packing.Started])
  rw [Sending.query]
  generalize requests.foldl (Sending.pack osMalloc) (s, { acc := (d, {}) }) = r at hs hp ⊢
  dsimp only
  split
  · exact hs.flush
  · next hle =>
    have hnone : r.2.buf = none := by
      rw [← Option.not_isSome_iff_eq_none]
      exact fun hsome => hle (hp hsome)
    rwa [hnone] at hs

end

section
variable (pool : Nat) (osMalloc : Nat → Nat)
  (hmem : BufferPool.InMemory pool EVENT_BUFFER_SIZE DEFAULT_POOL_BUFFER_COUNT)
  (hos : ∀ n, ¬ (BufferPool.new pool EVENT_BUFFER_SIZE DEFAULT_POOL_BUFFER_COUNT).InPool (osMalloc n))
include hos

theorem Inv.step {s : Sending} (h : Inv pool [] s) {op : SendOp} (hq : ¬ s.Fails op) :
    Inv pool [] (s.step osMalloc op) := by
  cases op with
  | send text => exact h.send hos text
  | query d requests => exact h.query hos d requests
  | complete i result => exact h.complete hq

omit hos in
/-- The handler only logs an error: the send is finished, and its buffer not freed. -/
theorem Inv.not_returned {s : Sending} (h : Inv pool [] s) {op : SendOp} (hq : s.Fails op) :
    ¬ (s.step osMalloc op).Returned := by
  rcases op with _ | _ | ⟨i, result⟩
  · exact absurd hq id
  · exact absurd hq id
  cases result with
  | ok bytes => exact absurd hq id
  | error ec =>
    intro hret
    have hi : i < s.inFlight.length := hq
    have hx := (h.pending s.inFlight[i] (List.getElem_mem hi)).2
    have hfreed := hret.freed s.inFlight[i].serial
    rw [Sending.step, Sending.complete, List.getElem?_eq_getElem hi] at hfreed
    simp [handler, h.freed, hx] at hfreed

include hmem

/-- In every run every send buffer is returned as it should be, just in case no send fails. -/
theorem returned_iff (ops : List SendOp) :
    Run.States (step osMalloc) Returned (init pool) ops ↔
      Run.Steps (step osMalloc) (fun s op => ¬ s.Fails op) (init pool) ops := by
  refine Run.states_iff_steps (fun _ => Inv.toReturned) (fun _ _ h hq => h.step pool osMalloc hos hq) ?_ (.init hmem)
  intro s op h hq
  exact h.not_returned pool osMalloc (not_not.1 hq)

end

/-- Two sends, one of them in three parts. -/
theorem returned_iff_resent :
    Run.States (step fun _ => 1) Returned (init 4096) [.send ['a', 'b', 'c'], .send ['x'], .complete 0 (.ok 1),
      .complete 1 (.ok 1), .complete 1 (.ok 1), .complete 0 (.ok 1)] := by
  refine (returned_iff 4096 (fun _ => 1) (by decide) (fun _ => by decide) _).2 ?_
  intro pre op hpre
  have hop := hpre.subset (List.mem_append_right pre List.mem_cons_self)
  simp only [List.mem_cons, List.not_mem_nil, or_false] at hop
  rcases hop with rfl | rfl | rfl | rfl | rfl | rfl <;> exact id

/-- The buffer of a send that fails is never freed. -/
theorem send_failed : ¬ ∀ ops, Run.States (step fun _ => 1) Returned (init 4096) ops := by
  intro h
  have hlast := (h [.send ['x'], .complete 0 (.error 101)]).last.freed 0
  revert hlast
  decide

end Sending
end A17.Dispatch
