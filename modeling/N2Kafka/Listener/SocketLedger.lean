import N2Kafka.Listener.SocketQueues

namespace N2Kafka.Listener.SocketClients

open Finset Function Lib.CString Lib.Transition Engine.Startup
open Listener.Socket (ThreadMode)

namespace Server

variable {g : Settings} {s s' : Server} {e : Event}

def holds (w : Worker) : Multiset ℕ :=
  ↑(w.watchersQueue.map Client.id) + ↑(w.watching.map Client.id)

def openClients (s : Server) : Multiset ℕ := ∑ i ∈ range s.threads, holds (s.workers i)

/-- Each connection ever accepted is in one place. -/
def Ledger (s : Server) : Prop :=
  (↑s.closed + ↑s.lost + s.openClients : Multiset ℕ) = Multiset.range s.accepted

theorem openClients_update {i : ℕ} {w : Worker} (hi : i < s.threads)
    (hworkers : s'.workers = Function.update s.workers i w) (hthreads : s'.threads = s.threads) :
    s'.openClients + holds (s.workers i) = s.openClients + holds w := by
  have hmem : i ∈ range s.threads := mem_range.mpr hi
  have hrest : ∑ j ∈ (range s.threads).erase i, holds (Function.update s.workers i w j) =
      ∑ j ∈ (range s.threads).erase i, holds (s.workers j) := by
    apply sum_congr rfl
    intro j hj
    rw [update_of_ne (ne_of_mem_erase hj)]
  rw [openClients, openClients, hworkers, hthreads, ← add_sum_erase _ _ hmem, hrest, update_self,
    ← add_sum_erase (range s.threads) (fun j ↦ holds (s.workers j)) hmem]
  ac_rfl

theorem openClients_same {i : ℕ} {w : Worker}
    (hworkers : s'.workers = Function.update s.workers i w) (hthreads : s'.threads = s.threads)
    (hw : holds w = holds (s.workers i)) : s'.openClients = s.openClients := by
  rw [openClients, openClients, hthreads]
  apply sum_congr rfl
  intro j _
  rw [hworkers, update_apply]
  split
  · rename_i hj
    rw [hw, hj]
  · rfl

theorem Queues.lt_of_ready {i k : ℕ} {c : Client} (h : Queues s) (hr : s.Ready i k c) :
    i < s.threads := by
  by_contra hi
  have hw := hr.2
  rw [(h.beyond i (Nat.le_of_not_lt hi)).2] at hw
  cases hw

theorem holds_eraseIdx {i k : ℕ} {c : Client} (hr : s.Ready i k c) :
    holds { s.workers i with watching := (s.workers i).watching.eraseIdx k } + {c.id} =
      holds (s.workers i) := by
  obtain ⟨hk, hget⟩ := List.getElem?_eq_some_iff.mp hr.2
  have hperm := (List.getElem_cons_eraseIdx_perm hk).map Client.id
  rw [hget] at hperm
  have hcoe := Multiset.coe_eq_coe.mpr hperm
  rw [List.map_cons, ← Multiset.cons_coe, ← Multiset.singleton_add] at hcoe
  simp only [holds, ← hcoe]
  ac_rfl

theorem holds_set {i k : ℕ} {c : Client} (hr : s.Ready i k c) (b : Bool) :
    holds { s.workers i with
      watching := (s.workers i).watching.set k { c with firstResponseSent := b } } =
      holds (s.workers i) := by
  obtain ⟨hk, hget⟩ := List.getElem?_eq_some_iff.mp hr.2
  have hmap : ((s.workers i).watching.set k { c with firstResponseSent := b }).map Client.id =
      (s.workers i).watching.map Client.id := by
    rw [List.map_set, ← hget]
    apply List.ext_getElem (by simp)
    intro j hj hj'
    rw [List.getElem_set]
    split
    · rename_i hkj
      subst hkj
      simp
    · rfl
  simp only [holds, hmap]

theorem Ledger.closed {i k : ℕ} {c : Client} (h : Ledger s) (hq : Queues s) (hr : s.Ready i k c)
    (hworkers : s'.workers = Function.update s.workers i
      { s.workers i with watching := (s.workers i).watching.eraseIdx k })
    (hthreads : s'.threads = s.threads) (hclosed : s'.closed = s.closed ++ [c.id])
    (hlost : s'.lost = s.lost) (haccepted : s'.accepted = s.accepted) : Ledger s' := by
  have hopen := openClients_update (hq.lt_of_ready hr) hworkers hthreads
  rw [← holds_eraseIdx hr, ← add_assoc, add_right_comm] at hopen
  have hsum : s'.openClients + {c.id} = s.openClients := add_right_cancel hopen
  rw [Ledger, haccepted, ← h, hclosed, hlost, ← hsum, ← Multiset.coe_add, Multiset.coe_singleton]
  ac_rfl

theorem Ledger.same {i : ℕ} {w : Worker} (h : Ledger s)
    (hworkers : s'.workers = Function.update s.workers i w) (hw : holds w = holds (s.workers i))
    (hthreads : s'.threads = s.threads) (hclosed : s'.closed = s.closed)
    (hlost : s'.lost = s.lost) (haccepted : s'.accepted = s.accepted) : Ledger s' := by
  rw [Ledger, openClients_same hworkers hthreads hw, hclosed, hlost, haccepted]
  exact h

theorem Ledger.dropped (h : Ledger s) :
    Ledger { s.next with lost := s.lost ++ [s.accepted] } := by
  have hopen : openClients { s.next with lost := s.lost ++ [s.accepted] } = s.openClients := rfl
  rw [Ledger, hopen, next, Multiset.range_succ, ← h, ← Multiset.coe_add, Multiset.coe_singleton,
    ← Multiset.singleton_add]
  ac_rfl

theorem Ledger.rejected (h : Ledger s) :
    Ledger { s.next with closed := s.closed ++ [s.accepted] } := by
  have hopen : openClients { s.next with closed := s.closed ++ [s.accepted] } = s.openClients := rfl
  rw [Ledger, hopen, next, Multiset.range_succ, ← h, ← Multiset.coe_add, Multiset.coe_singleton,
    ← Multiset.singleton_add]
  ac_rfl

theorem Ledger.handed {c : Client} (h : Ledger s) (hq : Queues s) (hc : c.id = s.accepted) :
    Ledger (s.next.fifoqAdd c) := by
  have hlt : s.acceptCurrentWorkerIdx < s.threads := by
    rw [hq.idx]
    exact Nat.mod_lt _ hq.pos
  have hopen : (s.next.fifoqAdd c).openClients + holds (s.workers s.acceptCurrentWorkerIdx) =
      s.openClients + holds { s.workers s.acceptCurrentWorkerIdx with
        watchersQueue := (s.workers s.acceptCurrentWorkerIdx).watchersQueue ++ [c] } :=
    openClients_update hlt rfl rfl
  have hholds : holds { s.workers s.acceptCurrentWorkerIdx with
      watchersQueue := (s.workers s.acceptCurrentWorkerIdx).watchersQueue ++ [c] } =
      {c.id} + holds (s.workers s.acceptCurrentWorkerIdx) := by
    simp only [holds, List.map_append, List.map_cons, List.map_nil, ← Multiset.coe_add,
      Multiset.coe_singleton]
    ac_rfl
  rw [hholds, ← add_assoc] at hopen
  have hsum : (s.next.fifoqAdd c).openClients = s.openClients + {c.id} := add_right_cancel hopen
  change _ = Multiset.range (s.accepted + 1)
  rw [hsum, Multiset.range_succ, ← h, ← hc, ← Multiset.singleton_add]
  change (↑s.closed + ↑s.lost + _ : Multiset ℕ) = _
  ac_rfl

theorem Ledger.stepped (h : Ledger s) (hq : Queues s) (hs : Stepped g s s') : Ledger s' := by
  cases hs with
  | mainTcpLoop hl =>
    have hopen : s.mainTcpLoop.openClients = s.openClients := by
      apply sum_congr rfl
      intro i _
      rw [(hq.fresh hl).2.2 i]
      simp only [Server.mainTcpLoop, (hq.fresh hl).2.2]
      split <;> rfl
    rw [Ledger, hopen]
    exact h
  | dropped => exact h.dropped
  | rejected => exact h.rejected
  | handed => exact h.handed hq rfl
  | wakeAccept | join | joinOther | joinWorker | readAgain | read => exact h
  | asyncSend | wakeWorker | popped | sendWorker => exact h.same rfl rfl rfl rfl rfl rfl
  | @pop i ends c rest hcb hqueue =>
    refine h.same rfl ?_ rfl rfl rfl rfl
    simp only [holds, hqueue, List.map_append, List.map_cons, List.map_nil, ← Multiset.coe_add,
      ← Multiset.cons_coe, ← Multiset.singleton_add]
    ac_rfl
  | readClosed hr => exact h.closed hq hr rfl rfl rfl rfl rfl
  | noResponse buffer hr => exact h.same rfl (holds_set hr true) rfl rfl rfl rfl
  | responded buffer hr => exact h.same rfl (holds_set hr true) rfl rfl rfl rfl
  | failed buffer hr => exact h.closed hq hr rfl rfl rfl rfl rfl

def clients (w : Worker) : List Client := w.watchersQueue ++ w.watching

theorem mem_holds_of_clients {w : Worker} {c : Client} (h : c ∈ clients w) : c.id ∈ holds w := by
  rw [holds, Multiset.coe_add, ← List.map_append]
  exact List.mem_map_of_mem h

structure Answers (g : Settings) (s : Server) : Prop where
  once : (s.responses.map Prod.fst).Nodup
  known : ∀ r ∈ s.responses, r.1 < s.accepted
  unsent : ∀ i, ∀ c ∈ clients (s.workers i), c.firstResponseSent = false →
    c.id ∉ s.responses.map Prod.fst
  written : s.writtenFreed = (s.responses.filter fun r ↦ r.2 ≤ 0).map Prod.fst
  addr : ∀ i, ∀ c ∈ clients (s.workers i), inAddrListContains g.blacklist c.addr = false
  decoded : ∀ d ∈ s.decoded, inAddrListContains g.blacklist d.1 = false

theorem Answers.frame (h : Answers g s)
    (hclients : ∀ i, ∀ c ∈ clients (s'.workers i), c ∈ clients (s.workers i) ∨
      c.firstResponseSent = true ∧ inAddrListContains g.blacklist c.addr = false)
    (hresponses : s'.responses = s.responses) (haccepted : s.accepted ≤ s'.accepted)
    (hwritten : s'.writtenFreed = s.writtenFreed)
    (hdecoded : ∀ d ∈ s'.decoded, inAddrListContains g.blacklist d.1 = false) : Answers g s' where
  once := hresponses ▸ h.once
  known r hr := (h.known r (hresponses ▸ hr)).trans_le haccepted
  unsent i c hc hf := by
    rw [hresponses]
    obtain hold | ⟨hsent, -⟩ := hclients i c hc
    · exact h.unsent i c hold hf
    · rw [hf] at hsent
      cases hsent
  written := by
    rw [hwritten, hresponses]
    exact h.written
  addr i c hc := (hclients i c hc).elim (h.addr i c) And.right
  decoded := hdecoded

theorem mem_clients_update {i j : ℕ} {w : Worker} {c : Client}
    (h : c ∈ clients (Function.update s.workers i w j)) :
    j = i ∧ c ∈ clients w ∨ j ≠ i ∧ c ∈ clients (s.workers j) := by
  rw [update_apply] at h
  split at h
  · rename_i hj
    exact .inl ⟨hj, h⟩
  · rename_i hj
    exact .inr ⟨hj, h⟩

theorem Answers.update {i : ℕ} {w : Worker} (h : Answers g s)
    (hworkers : s'.workers = Function.update s.workers i w)
    (hw : ∀ c ∈ clients w, c ∈ clients (s.workers i) ∨
      c.firstResponseSent = true ∧ inAddrListContains g.blacklist c.addr = false)
    (hresponses : s'.responses = s.responses) (haccepted : s'.accepted = s.accepted)
    (hwritten : s'.writtenFreed = s.writtenFreed)
    (hdecoded : ∀ d ∈ s'.decoded, inAddrListContains g.blacklist d.1 = false) : Answers g s' := by
  refine h.frame ?_ hresponses haccepted.ge hwritten hdecoded
  intro j c hc
  rw [hworkers] at hc
  obtain ⟨hj, hnew⟩ | ⟨-, hold⟩ := mem_clients_update hc
  · rw [hj]
    exact hw c hnew
  · exact .inl hold

theorem Ready.mem_clients {i k : ℕ} {c : Client} (hr : s.Ready i k c) :
    c ∈ clients (s.workers i) :=
  List.mem_append_right _ (List.mem_of_getElem? hr.2)

theorem Ledger.alone {i k : ℕ} {c : Client} (h : Ledger s) (hq : Queues s) (hr : s.Ready i k c) :
    c.id < s.accepted ∧
      c.id ∉ holds { s.workers i with watching := (s.workers i).watching.eraseIdx k } ∧
      ∀ j, j ≠ i → c.id ∉ holds (s.workers j) := by
  have hmem : i ∈ range s.threads := mem_range.mpr (hq.lt_of_ready hr)
  have hc : c.id ∈ holds (s.workers i) := mem_holds_of_clients hr.mem_clients
  have hnodup : s.openClients.Nodup := by
    have hall := Multiset.nodup_range s.accepted
    rw [← h] at hall
    exact (Multiset.nodup_add.mp hall).2.1
  have hopen : c.id ∈ s.openClients := Multiset.mem_sum.mpr ⟨i, hmem, hc⟩
  have hsplit : (holds (s.workers i)).Nodup ∧
      ∀ j ∈ (range s.threads).erase i, c.id ∉ holds (s.workers j) := by
    rw [openClients, ← add_sum_erase _ _ hmem] at hnodup
    obtain ⟨hi, -, hdisjoint⟩ := Multiset.nodup_add.mp hnodup
    refine ⟨hi, fun j hj hcj ↦ ?_⟩
    exact Multiset.disjoint_left.mp hdisjoint hc (Multiset.mem_sum.mpr ⟨j, hj, hcj⟩)
  refine ⟨?_, ?_, ?_⟩
  · rw [← Multiset.mem_range, ← h]
    exact Multiset.mem_add.mpr (.inr hopen)
  · have hi := hsplit.1
    rw [← holds_eraseIdx hr] at hi
    intro hce
    exact Multiset.disjoint_left.mp (Multiset.nodup_add.mp hi).2.2 hce (Multiset.mem_singleton_self _)
  · intro j hji
    rcases Nat.lt_or_ge j s.threads with hj | hj
    · exact hsplit.2 j (mem_erase.mpr ⟨hji, mem_range.mpr hj⟩)
    · obtain ⟨hqueue, hwatching⟩ := hq.beyond j hj
      simp [holds, hqueue, hwatching]

theorem Answers.respond {i k : ℕ} {c : Client} {watching : List Client} (sendRet : ℤ)
    (h : Answers g s) (hl : Ledger s) (hq : Queues s) (hr : s.Ready i k c)
    (hc : c.firstResponseSent = false)
    (hworkers : s'.workers = Function.update s.workers i { s.workers i with watching := watching })
    (hwatching : ∀ c' ∈ watching, c' ∈ (s.workers i).watching.eraseIdx k ∨
      c' = { c with firstResponseSent := true })
    (hresponses : s'.responses = s.responses ++ [(c.id, sendRet)])
    (haccepted : s'.accepted = s.accepted)
    (hwritten : s'.writtenFreed = s.writtenFreed ++ if sendRet ≤ 0 then [c.id] else [])
    (hdecoded : ∀ d ∈ s'.decoded, inAddrListContains g.blacklist d.1 = false) : Answers g s' := by
  obtain ⟨hlt, halone, hothers⟩ := hl.alone hq hr
  have hnew : c.id ∉ s.responses.map Prod.fst := h.unsent i c hr.mem_clients hc
  have herase : ∀ c' ∈ clients { s.workers i with watching := watching },
      c' = { c with firstResponseSent := true } ∨
        c' ∈ clients (s.workers i) ∧ c'.id ≠ c.id := by
    intro c' hc'
    have hkept : c' ∈ clients { s.workers i with
        watching := (s.workers i).watching.eraseIdx k } → c'.id ≠ c.id := by
      intro hmem hid
      exact halone (hid ▸ mem_holds_of_clients hmem)
    cases List.mem_append.mp hc' with
    | inl hqueue =>
      exact .inr ⟨List.mem_append_left _ hqueue, hkept (List.mem_append_left _ hqueue)⟩
    | inr hw =>
      cases hwatching c' hw with
      | inl he =>
        exact .inr ⟨List.mem_append_right _ (List.mem_of_mem_eraseIdx he),
          hkept (List.mem_append_right _ he)⟩
      | inr he => exact .inl he
  have hold : ∀ j, ∀ c' ∈ clients (s'.workers j),
      c' = { c with firstResponseSent := true } ∨
        c' ∈ clients (s.workers j) ∧ c'.id ≠ c.id := by
    intro j c' hc'
    rw [hworkers] at hc'
    obtain ⟨rfl, hc'⟩ | ⟨hji, hc'⟩ := mem_clients_update hc'
    · exact herase c' hc'
    · exact .inr ⟨hc', fun hid ↦ hothers j hji (hid ▸ mem_holds_of_clients hc')⟩
  constructor
  · rw [hresponses, List.map_append]
    refine List.nodup_append.mpr ⟨h.once, List.nodup_singleton _, ?_⟩
    intro a ha b hb hab
    rw [hab, List.mem_singleton.mp hb] at ha
    exact hnew ha
  · intro r hr'
    rw [haccepted]
    rw [hresponses] at hr'
    cases List.mem_append.mp hr' with
    | inl hr' => exact h.known r hr'
    | inr hr' =>
      rw [List.mem_singleton.mp hr']
      exact hlt
  · intro j c' hc' hf
    obtain rfl | ⟨hc', hid⟩ := hold j c' hc'
    · cases hf
    · rw [hresponses, List.map_append, List.mem_append, not_or]
      exact ⟨h.unsent j c' hc' hf, fun hid' ↦ hid (List.mem_singleton.mp hid')⟩
  · rw [hwritten, hresponses, h.written, List.filter_append, List.map_append]
    congr 1
    by_cases hret : sendRet ≤ 0
    · simp [hret]
    · simp [hret]
  · intro j c' hc'
    obtain rfl | ⟨hc', -⟩ := hold j c' hc'
    · exact h.addr i c hr.mem_clients
    · exact h.addr j c' hc'
  · exact hdecoded

theorem mem_erase_or_eq_of_mem_set {α : Type*} {l : List α} {k : ℕ} {a b : α}
    (h : a ∈ l.set k b) : a ∈ l.eraseIdx k ∨ a = b := by
  rcases Nat.lt_or_ge k l.length with hk | hk
  · rw [(List.set_perm_cons_eraseIdx hk b).mem_iff, List.mem_cons] at h
    exact h.symm
  · rw [List.set_eq_of_length_le hk] at h
    rw [List.eraseIdx_of_length_le hk]
    exact .inl h

theorem Answers.decode {i k : ℕ} {c : Client} (h : Answers g s) (hr : s.Ready i k c)
    (buffer : Bytes) :
    ∀ d ∈ (s.decode c buffer).decoded, inAddrListContains g.blacklist d.1 = false := by
  intro d hd
  cases List.mem_append.mp hd with
  | inl hd => exact h.decoded d hd
  | inr hd =>
    rw [List.mem_singleton.mp hd]
    exact h.addr i c hr.mem_clients

theorem Answers.handed {addr : InAddr} {client : CStr} (h : Answers g s)
    (hb : inAddrListContains g.blacklist addr = false) :
    Answers g (s.next.fifoqAdd ⟨s.accepted, addr, client, false⟩) := by
  have hold : ∀ j, ∀ c ∈ clients ((s.next.fifoqAdd ⟨s.accepted, addr, client, false⟩).workers j),
      c ∈ clients (s.workers j) ∨ c = ⟨s.accepted, addr, client, false⟩ := by
    intro j c hc
    obtain ⟨hj, hc'⟩ | ⟨-, hc'⟩ := mem_clients_update hc
    · rw [hj]
      rw [clients, List.append_assoc, List.mem_append] at hc'
      rw [clients, List.mem_append]
      rcases hc' with hqueue | hrest
      · exact .inl (.inl hqueue)
      · rcases List.mem_append.mp hrest with hone | hwatching
        · exact .inr (List.mem_singleton.mp hone)
        · exact .inl (.inr hwatching)
    · exact .inl hc'
  constructor
  · exact h.once
  · intro r hr
    exact (h.known r hr).trans (Nat.lt_succ_self _)
  · intro j c hc hf
    obtain hc | rfl := hold j c hc
    · exact h.unsent j c hc hf
    · intro hmem
      obtain ⟨r, hr, hid⟩ := List.mem_map.mp hmem
      exact absurd (h.known r hr) (by simp [hid])
  · exact h.written
  · intro j c hc
    obtain hc | rfl := hold j c hc
    · exact h.addr j c hc
    · exact hb
  · exact h.decoded

theorem Answers.stepped (h : Answers g s) (hl : Ledger s) (hq : Queues s) (hs : Stepped g s s') :
    Answers g s' := by
  cases hs with
  | mainTcpLoop hloop =>
    refine h.frame ?_ rfl le_rfl rfl h.decoded
    intro i c hc
    simp only [Server.mainTcpLoop, (hq.fresh hloop).2.2] at hc
    split at hc
    · cases hc
    · cases hc
  | dropped | rejected => exact h.frame (fun _ _ hc ↦ .inl hc) rfl (Nat.le_succ _) rfl h.decoded
  | wakeAccept | join | joinOther | joinWorker | readAgain =>
    exact h.frame (fun _ _ hc ↦ .inl hc) rfl le_rfl rfl h.decoded
  | handed _ _ hb => exact h.handed hb
  | asyncSend | wakeWorker | popped | sendWorker =>
    exact h.update rfl (fun _ hc ↦ .inl hc) rfl rfl rfl h.decoded
  | @pop i ends c rest hcb hqueue =>
    refine h.update rfl ?_ rfl rfl rfl h.decoded
    intro c' hc'
    refine .inl ?_
    simp only [clients, List.mem_append, List.mem_singleton] at hc'
    simp only [clients, hqueue, List.mem_append, List.mem_cons]
    rcases hc' with hrest | hwatching | hone
    · exact .inl (.inr hrest)
    · exact .inr hwatching
    · exact .inl (.inl hone)
  | readClosed hr =>
    refine h.update rfl ?_ rfl rfl rfl h.decoded
    intro c' hc'
    refine .inl ?_
    cases List.mem_append.mp hc' with
    | inl hqueue => exact List.mem_append_left _ hqueue
    | inr hw => exact List.mem_append_right _ (List.mem_of_mem_eraseIdx hw)
  | read buffer hr => exact h.frame (fun _ _ hc ↦ .inl hc) rfl le_rfl rfl (h.decode hr buffer)
  | @noResponse i k c buffer hr hc =>
    refine h.update rfl ?_ rfl rfl rfl (h.decode hr buffer)
    intro c' hc'
    cases List.mem_append.mp hc' with
    | inl hqueue => exact .inl (List.mem_append_left _ hqueue)
    | inr hw =>
      cases List.mem_or_eq_of_mem_set hw with
      | inl hw => exact .inl (List.mem_append_right _ hw)
      | inr he => exact .inr (he ▸ ⟨rfl, h.addr i c hr.mem_clients⟩)
  | @responded i k c sendRet buffer hr hc hret =>
    refine h.respond sendRet hl hq hr hc rfl
      (fun _ ↦ mem_erase_or_eq_of_mem_set) rfl rfl ?_ (h.decode hr buffer)
    rw [if_neg (by omega)]
    exact (List.append_nil _).symm
  | @failed i k c sendRet buffer hr hc hret =>
    refine h.respond sendRet hl hq hr hc rfl (fun _ ↦ .inl) rfl rfl ?_
      (h.decode hr buffer)
    exact congrArg (s.writtenFreed ++ ·) (if_pos hret).symm

end Server

section Results

variable {g : Settings} {s : Server} {numThreads : Option ℕ} {mode : Option ThreadMode}

theorem kept_of_reachable
    (h : Reachable (Server.step g) (createSocketListener numThreads mode) s) :
    Server.Queues s ∧ Server.Ledger s ∧ Server.Answers g s := by
  refine h.invariant (P := fun s ↦ Server.Queues s ∧ Server.Ledger s ∧ Server.Answers g s)
    ⟨Server.queues_create numThreads mode, ?_, ?_⟩ ?_
  · simp [Server.Ledger, Server.openClients, createSocketListener, Server.holds, newWorker]
  · exact ⟨List.nodup_nil, (by simp [createSocketListener]),
      fun _ _ hc ↦ absurd hc List.not_mem_nil, rfl,
      fun _ _ hc ↦ absurd hc List.not_mem_nil, (by simp [createSocketListener])⟩
  · rintro e s s' ⟨hq, hl, ha⟩ hs
    have hstepped := Server.stepped_of_step hs
    exact ⟨hq.stepped hstepped, hl.stepped hq hstepped, ha.stepped hl hq hstepped⟩

/-- Each connection ever accepted has been closed once, or is open with one worker, or was dropped
without being closed. -/
theorem each_connection_once
    (h : Reachable (Server.step g) (createSocketListener numThreads mode) s) :
    (↑s.closed + ↑s.lost + s.openClients : Multiset ℕ) = Multiset.range s.accepted :=
  (kept_of_reachable h).2.1

theorem served_once : (↑served.closed + ↑served.lost + served.openClients : Multiset ℕ) =
    Multiset.range served.accepted :=
  each_connection_once served_reachable

/-- A connection gets the first response once at most, and what `read_cb` writes to a connection
that it has freed before are the marks of those responses that failed. -/
theorem first_responses
    (h : Reachable (Server.step g) (createSocketListener numThreads mode) s) :
    (s.responses.map Prod.fst).Nodup ∧
      s.writtenFreed = (s.responses.filter fun r ↦ r.2 ≤ 0).map Prod.fst :=
  ⟨(kept_of_reachable h).2.2.once, (kept_of_reachable h).2.2.written⟩

theorem served_responses : (served.responses.map Prod.fst).Nodup ∧
    served.writtenFreed = (served.responses.filter fun r ↦ r.2 ≤ 0).map Prod.fst :=
  first_responses served_reachable

/-- No data of an address that the blacklist of the file has a text for reaches a decoder. -/
theorem blacklist_enforced {sur : Surroundings} {g₀ : Settings} {items : List Lib.Jansson.Json}
    {text : CStr} {addr : InAddr} (hg : parseBlacklist sur g₀ (.array items) = some g)
    (h : Reachable (Server.step g) (createSocketListener numThreads mode) s)
    (htext : .string text ∈ items) (haddr : sur.inetPton text = some addr) :
    ∀ d ∈ s.decoded, d.1 ≠ addr := by
  intro d hd he
  have hdecoded := (kept_of_reachable h).2.2.decoded d hd
  obtain ⟨items', hitems, hlist⟩ := parseBlacklist_eq_some hg
  cases hitems
  obtain ⟨i, hi, hget⟩ := List.mem_iff_getElem.mp htext
  have hmem : addr ∈ g.blacklist := by
    refine (mem_blacklistValues hlist addr).mpr (.inr ⟨i, text, ?_, ?_⟩)
    · exact List.getElem?_eq_some_iff.mpr ⟨hi, hget⟩
    · rw [assertPton, haddr]
      rfl
  rw [he, inAddrListContains_iff.mpr hmem] at hdecoded
  cases hdecoded

/-- A connection from the blocked address, and one from another that sends data. -/
def blockedAndServed : List Event :=
  [.mainTcpLoop, .accept 3232261379 (some (lit "192.168.101.3")) true,
    .accept 1 (some (lit "0.0.0.1")) true, .asyncSend, .wakeWorker 0, .pop 0, .popped 0,
    .read 0 0 (.data [65]) 2]

theorem blockedAndServed_runs : (run (Server.step blocked) blockedAndServed listening).isSome := rfl

def onceBlocked : Server :=
  (run (Server.step blocked) blockedAndServed listening).get blockedAndServed_runs

theorem onceBlocked_reachable : Reachable (Server.step blocked) listening onceBlocked :=
  reachable_of_run .start _ (Option.some_get blockedAndServed_runs).symm

theorem served_not_blocked : onceBlocked.closed = [0] ∧ onceBlocked.decoded.map Prod.fst = [1] ∧
    ∀ d ∈ onceBlocked.decoded, d.1 ≠ 3232261379 :=
  ⟨rfl, rfl, blacklist_enforced plain_blocked onceBlocked_reachable (.head _) rfl⟩

end Results

end N2Kafka.Listener.SocketClients
