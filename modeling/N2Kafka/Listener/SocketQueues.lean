import N2Kafka.Lib.RoundRobin
import N2Kafka.Listener.SocketClients

namespace N2Kafka.Listener.SocketClients

open Finset Function Lib.CString Lib.RoundRobin Lib.Transition Engine.Startup
open Listener.Socket (ThreadMode Loop Stopping configThreads)
open Listener.Socket.SocketListener (asyncCbLoop)

namespace Server

variable {g : Settings} {s s' : Server} {e : Event}

/-- Somebody is about to take what is in the queue, unless the worker has left its loop. -/
def Woken (sending : Option ℕ) (i : ℕ) (w : Worker) : Prop :=
  w.watchersQueue = [] ∨ w.eventAsync = true ∨ sending = some i ∨ w.asyncCb.isSome = true ∨
    w.eventLoop = .left

def taken (w : Worker) : List ℕ := w.started ++ w.watchersQueue.map Client.id

structure Queues (s : Server) : Prop where
  pos : 0 < s.threads
  fresh : s.eventLoop = .notStarted →
    s.sending = none ∧ s.handed = [] ∧ ∀ i, s.workers i = newWorker
  begun : s.eventLoop ≠ .notStarted → ∀ i < s.threads, (s.workers i).eventLoop ≠ .notStarted
  idx : s.acceptCurrentWorkerIdx = s.handed.length % s.threads
  woken : ∀ i, Woken s.sending i (s.workers i)
  dealt : ∀ i < s.threads, taken (s.workers i) = dealt s.threads i s.handed
  beyond : ∀ i, s.threads ≤ i →
    (s.workers i).watchersQueue = [] ∧ (s.workers i).watching = []

theorem Queues.frame (h : Queues s) (hworkers : s'.workers = s.workers)
    (hthreads : s'.threads = s.threads) (hsending : s'.sending = s.sending)
    (hhanded : s'.handed = s.handed)
    (hidx : s'.acceptCurrentWorkerIdx = s.acceptCurrentWorkerIdx)
    (hloop : s'.eventLoop = .notStarted ↔ s.eventLoop = .notStarted) : Queues s' := by
  constructor
  · exact hthreads ▸ h.pos
  · rw [hloop, hsending, hhanded, hworkers]
    exact h.fresh
  · rw [Ne, hloop, hthreads, hworkers]
    exact h.begun
  · rw [hidx, hhanded, hthreads]
    exact h.idx
  · rw [hsending, hworkers]
    exact h.woken
  · rw [hthreads, hworkers, hhanded]
    exact h.dealt
  · rw [hthreads, hworkers]
    exact h.beyond

theorem Queues.update {i : ℕ} {w : Worker} (h : Queues s)
    (hworkers : s'.workers = Function.update s.workers i w) (hthreads : s'.threads = s.threads)
    (hsending : s'.sending = s.sending) (hhanded : s'.handed = s.handed)
    (hidx : s'.acceptCurrentWorkerIdx = s.acceptCurrentWorkerIdx)
    (hloop : s'.eventLoop = s.eventLoop) (hrun : s.eventLoop ≠ .notStarted)
    (hbegun : (s.workers i).eventLoop ≠ .notStarted → w.eventLoop ≠ .notStarted)
    (hw : Woken s.sending i w) (htaken : taken w = taken (s.workers i))
    (hbeyond : s.threads ≤ i → w.watchersQueue = [] ∧ w.watching = []) : Queues s' := by
  constructor
  · exact hthreads ▸ h.pos
  · intro hl
    exact absurd (hloop ▸ hl) hrun
  · intro _ j hj
    rw [hworkers, update_apply]
    split
    · rename_i hji
      exact hbegun (h.begun hrun i (hji ▸ hthreads ▸ hj))
    · exact h.begun hrun j (hthreads ▸ hj)
  · rw [hidx, hhanded, hthreads]
    exact h.idx
  · intro j
    rw [hsending, hworkers, update_apply]
    split
    · rename_i hji
      rwa [hji]
    · exact h.woken j
  · intro j hj
    rw [hthreads] at hj ⊢
    rw [hworkers, hhanded, update_apply]
    split
    · rename_i hji
      subst hji
      rw [htaken]
      exact h.dealt j hj
    · exact h.dealt j hj
  · intro j hj
    rw [hthreads] at hj
    rw [hworkers, update_apply]
    split
    · rename_i hji
      exact hbeyond (hji ▸ hj)
    · exact h.beyond j hj

theorem Queues.running_of_loop {i : ℕ} (h : Queues s) (hw : s.workers i ≠ newWorker) :
    s.eventLoop ≠ .notStarted :=
  fun hl ↦ hw ((h.fresh hl).2.2 i)

theorem Queues.mainTcpLoop (h : Queues s) (hl : s.eventLoop = .notStarted) :
    Queues s.mainTcpLoop := by
  obtain ⟨-, hhanded, hworkers⟩ := h.fresh hl
  constructor
  · exact h.pos
  · nofun
  · intro _ i hi
    have hi' : i < s.threads := hi
    simp [Server.mainTcpLoop, hi']
  · exact h.idx
  · intro i
    refine .inl ?_
    simp only [Server.mainTcpLoop, hworkers]
    split <;> rfl
  · intro i hi
    have hi' : i < s.threads := hi
    simp [Server.mainTcpLoop, hi', hhanded, taken, newWorker]
  · intro i _
    simp only [Server.mainTcpLoop, hworkers]
    split <;> exact ⟨rfl, rfl⟩

theorem next_idx {n t : ℕ} (ht : 0 < t) :
    (if n % t + 1 ≥ t then 0 else n % t + 1) = (n + 1) % t := by
  have hlt := Nat.mod_lt n ht
  rw [Nat.add_mod]
  split
  · have he : n % t + 1 = t := by omega
    rcases Nat.lt_or_ge 1 t with h | h
    · rw [Nat.mod_eq_of_lt h, he, Nat.mod_self]
    · obtain rfl : t = 1 := by omega
      simp [Nat.mod_one]
  · have hone : 1 % t = 1 := Nat.mod_eq_of_lt (by omega)
    rw [hone]
    exact (Nat.mod_eq_of_lt (by omega)).symm

theorem Queues.handed {c : Client} (h : Queues s) (hl : s.eventLoop = .running)
    (hs : s.sending = none) : Queues (s.next.fifoqAdd c) := by
  have hidx := h.idx
  have hlt : s.acceptCurrentWorkerIdx < s.threads := by
    rw [hidx]
    exact Nat.mod_lt _ h.pos
  constructor
  · exact h.pos
  · intro hl'
    rw [fifoqAdd] at hl'
    exact absurd (hl.symm.trans hl') (by simp)
  · intro _ j hj
    simp only [fifoqAdd, setWorker, next, update_apply]
    split
    · exact h.begun (by simp [hl]) _ hlt
    · exact h.begun (by simp [hl]) j hj
  · simp only [fifoqAdd, setWorker, next, hidx, List.length_append, List.length_singleton]
    exact next_idx h.pos
  · intro j
    simp only [fifoqAdd, setWorker, next, update_apply]
    split
    · rename_i hji
      exact .inr (.inr (.inl (by rw [hji])))
    · obtain hq | he | hsend | hcb := h.woken j
      · exact .inl hq
      · exact .inr (.inl he)
      · rw [hs] at hsend
        cases hsend
      · exact .inr (.inr (.inr hcb))
  · intro j hj
    simp only [fifoqAdd, setWorker, next, update_apply, dealt_concat, ← hidx]
    split
    · rename_i hji
      rw [if_pos hji.symm, ← h.dealt j hj, hji]
      simp [taken]
    · rename_i hji
      rw [if_neg fun he ↦ hji he.symm, List.append_nil]
      exact h.dealt j hj
  · intro j hj
    have hj' : s.threads ≤ j := hj
    have hne : j ≠ s.acceptCurrentWorkerIdx := by omega
    simp only [fifoqAdd, setWorker, next, update_of_ne hne]
    exact h.beyond j hj'

theorem Queues.asyncSend {i : ℕ} (h : Queues s) (hs : s.sending = some i) :
    Queues (s.asyncSend i) := by
  have hrun : s.eventLoop ≠ .notStarted := by
    intro hl
    rw [(h.fresh hl).1] at hs
    cases hs
  constructor
  · exact h.pos
  · intro hl
    exact absurd hl hrun
  · intro _ j hj
    simp only [Server.asyncSend, setWorker, update_apply]
    split
    · rename_i hji
      exact h.begun hrun i (hji ▸ hj)
    · exact h.begun hrun j hj
  · exact h.idx
  · intro j
    simp only [Server.asyncSend, setWorker, update_apply]
    split
    · exact .inr (.inl rfl)
    · rename_i hji
      obtain hq | he | hsend | hcb := h.woken j
      · exact .inl hq
      · exact .inr (.inl he)
      · rw [hs] at hsend
        exact absurd (Option.some.inj hsend).symm hji
      · exact .inr (.inr (.inr hcb))
  · intro j hj
    simp only [Server.asyncSend, setWorker, update_apply]
    split
    · rename_i hji
      subst hji
      exact h.dealt j hj
    · exact h.dealt j hj
  · intro j hj
    simp only [Server.asyncSend, setWorker, update_apply]
    split
    · rename_i hji
      subst hji
      exact h.beyond j hj
    · exact h.beyond j hj

theorem Ready.ne_newWorker {i k : ℕ} {c : Client} (h : s.Ready i k c) : s.workers i ≠ newWorker := by
  intro hw
  have hrun := h.1.1
  rw [hw] at hrun
  cases hrun

theorem asyncCb_ne_newWorker {i : ℕ} {ends : Bool} (h : (s.workers i).asyncCb = some ends) :
    s.workers i ≠ newWorker := by
  intro hw
  rw [hw] at h
  cases h

theorem asyncCbLoop_ne {ends : Bool} {loop : Loop} (h : loop ≠ .notStarted) :
    asyncCbLoop ends loop ≠ .notStarted := by
  cases ends with
  | true => nofun
  | false => exact h

theorem Queues.watch {i k : ℕ} {c : Client} {watching : List Client} (h : Queues s)
    (hr : s.Ready i k c) (hworkers : s'.workers =
      Function.update s.workers i { s.workers i with watching := watching })
    (hthreads : s'.threads = s.threads) (hsending : s'.sending = s.sending)
    (hhanded : s'.handed = s.handed)
    (hidx : s'.acceptCurrentWorkerIdx = s.acceptCurrentWorkerIdx)
    (hloop : s'.eventLoop = s.eventLoop) : Queues s' := by
  refine h.update hworkers hthreads hsending hhanded hidx hloop
    (h.running_of_loop hr.ne_newWorker) id (h.woken i) rfl ?_
  intro hi
  have hw := hr.2
  rw [(h.beyond i hi).2] at hw
  cases hw

theorem Queues.stepped (h : Queues s) (hs : Stepped g s s') : Queues s' := by
  cases hs with
  | mainTcpLoop hl => exact h.mainTcpLoop hl
  | dropped | rejected | join | joinOther | joinWorker | readAgain | read =>
    exact h.frame rfl rfl rfl rfl rfl .rfl
  | handed hl hs => exact h.handed hl hs
  | asyncSend hs => exact h.asyncSend hs
  | wakeAccept hl =>
    refine h.frame rfl rfl rfl rfl rfl ?_
    refine iff_of_false (asyncCbLoop_ne (by simp [hl])) (by simp [hl])
  | @wakeWorker i hi =>
    have hne : s.workers i ≠ newWorker := by
      intro hw
      rw [hw] at hi
      cases hi.1
    exact h.update rfl rfl rfl rfl rfl rfl (h.running_of_loop hne) id (.inr (.inr (.inr (.inl rfl))))
      rfl (h.beyond i)
  | @pop i ends c rest hcb hq =>
    refine h.update rfl rfl rfl rfl rfl rfl (h.running_of_loop (asyncCb_ne_newWorker hcb)) id
      (.inr (.inr (.inr (.inl (by simp [hcb]))))) ?_ ?_
    · simp [taken, hq]
    · intro hi
      rw [(h.beyond i hi).1] at hq
      cases hq
  | @popped i ends hcb hq =>
    exact h.update rfl rfl rfl rfl rfl rfl (h.running_of_loop (asyncCb_ne_newWorker hcb))
      asyncCbLoop_ne (.inl hq) rfl (h.beyond i)
  | readClosed hr => exact h.watch hr rfl rfl rfl rfl rfl rfl
  | noResponse buffer hr => exact h.watch hr rfl rfl rfl rfl rfl rfl
  | responded buffer hr => exact h.watch hr rfl rfl rfl rfl rfl rfl
  | failed buffer hr => exact h.watch hr rfl rfl rfl rfl rfl rfl
  | @sendWorker i hl hi =>
    exact h.update rfl rfl rfl rfl rfl rfl (by simp [hl]) id (.inr (.inl rfl)) rfl (h.beyond i)

theorem queues_create (numThreads : Option ℕ) (mode : Option ThreadMode) :
    Queues (createSocketListener numThreads mode) where
  pos := by
    simp only [createSocketListener, configThreads, Socket.maxNumThreads]
    split <;> split <;> omega
  fresh _ := ⟨rfl, rfl, fun _ ↦ rfl⟩
  begun h := absurd rfl h
  idx := (Nat.zero_mod _).symm
  woken _ := .inl rfl
  dealt _ _ := rfl
  beyond _ _ := ⟨rfl, rfl⟩

end Server

section Results

variable {g : Settings} {s : Server} {numThreads : Option ℕ} {mode : Option ThreadMode}

theorem queues_of_reachable
    (h : Reachable (Server.step g) (createSocketListener numThreads mode) s) : Server.Queues s :=
  h.invariant (Server.queues_create numThreads mode) fun _ _ _ hq hs ↦
    hq.stepped (Server.stepped_of_step hs)

/-- No wake-up is lost: while a connection is in the queue of a worker that has not left its loop,
either the accept loop goes on to wake it up, or the worker goes on to take the connection. -/
theorem queue_moves (h : Reachable (Server.step g) (createSocketListener numThreads mode) s) (i : ℕ)
    (hq : (s.workers i).watchersQueue ≠ []) (hl : (s.workers i).eventLoop ≠ .left) :
    ∃ e ∈ [Event.asyncSend, .wakeWorker i, .pop i], (Server.step g e s).isSome = true := by
  have hqueues := queues_of_reachable h
  have hi : i < s.threads := by
    by_contra hi
    exact hq (hqueues.beyond i (Nat.le_of_not_lt hi)).1
  have hrun : s.eventLoop ≠ .notStarted := by
    refine hqueues.running_of_loop (i := i) fun hw ↦ hq ?_
    rw [hw]
    rfl
  have hrunning : (s.workers i).eventLoop = .running := by
    cases hw : (s.workers i).eventLoop with
    | notStarted => exact absurd hw (hqueues.begun hrun i hi)
    | running => rfl
    | left => exact absurd hw hl
  obtain ⟨c, rest, hcons⟩ := List.exists_cons_of_ne_nil hq
  cases hcb : (s.workers i).asyncCb with
  | some ends => exact ⟨.pop i, by simp, by simp [Server.step, hcb, hcons]⟩
  | none =>
    obtain hnil | he | hsend | hsome | hleft := hqueues.woken i
    · exact absurd hnil hq
    · exact ⟨.wakeWorker i, by simp, by simp [Server.step, Server.idle, hcb, he, hrunning]⟩
    · exact ⟨.asyncSend, by simp, by simp [Server.step, hsend]⟩
    · simp [hcb] at hsome
    · exact absurd hleft hl

theorem served_moves :
    ∃ e ∈ [Event.asyncSend, .wakeWorker 1, .pop 1], (Server.step blocked e served).isSome = true :=
  queue_moves served_reachable 1 (by decide) (by decide)

/-- The connections come to the workers in turn and in order, whatever the threads do in between. -/
theorem clients_dealt (h : Reachable (Server.step g) (createSocketListener numThreads mode) s) :
    (∀ i < s.threads, Server.taken (s.workers i) = dealt s.threads i s.handed) ∧
      ∀ i < s.threads, ∀ j < s.threads,
        (Server.taken (s.workers i)).length ≤ (Server.taken (s.workers j)).length + 1 := by
  have hqueues := queues_of_reachable h
  refine ⟨hqueues.dealt, ?_⟩
  intro i hi j hj
  rw [hqueues.dealt i hi, hqueues.dealt j hj]
  exact length_dealt_le hi hj s.handed

theorem served_dealt :
    (∀ i < served.threads, Server.taken (served.workers i) = dealt served.threads i served.handed) ∧
      ∀ i < served.threads, ∀ j < served.threads,
        (Server.taken (served.workers i)).length ≤ (Server.taken (served.workers j)).length + 1 :=
  clients_dealt served_reachable

end Results

end N2Kafka.Listener.SocketClients
