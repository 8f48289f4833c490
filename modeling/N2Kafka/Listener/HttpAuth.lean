import Mathlib.Algebra.GroupWithZero.Nat
import N2Kafka.Lib.CString

namespace N2Kafka.Listener.HttpAuth

open Lib.CString

def newline : UInt8 := 10

def userPassSeparator : UInt8 := 58

def plainHashingCallbackPrefix : CStr := lit ":{PLAIN}"

/-- How a call ends: with a value, or in one of its assertions. A read past the end of the
database would be `outOfBounds`, a call through a null callback `nullCall`. -/
inductive Outcome
  | returned (allowed : Bool)
  | assertFailed
  | outOfBounds
  | nullCall
  deriving DecidableEq

/-- `htfilePassword` points into the database, at the colon of an entry. -/
def plainHashingCallback (providedPassword : CStr) (htfilePassword : Bytes) : Outcome :=
  if strncmp providedPassword plainHashingCallbackPrefix plainHashingCallbackPrefix.1.length ≠ 0 then
    .assertFailed
  else
    .returned (strcmp (strAt (htfilePassword.drop plainHashingCallbackPrefix.1.length))
      providedPassword = 0)

/-- Offsets of the first colon, if any, and of the end of the line. -/
def tokenizeUserPassLine (mem : Bytes) : Option ℕ × ℕ :=
  let colon := strchrnul mem userPassSeparator
  if mem[colon]? ≠ some userPassSeparator then (none, colon)
  else (some colon, colon + strchrnul (mem.drop colon) newline)

def passwordHashingCallback (colon : Bytes) : Option (CStr → Bytes → Outcome) :=
  ([(plainHashingCallbackPrefix, plainHashingCallback)].find? fun cb ↦
    strncmp (strAt colon) cb.1 cb.1.1.length = 0).map (·.2)

/-- The successive lines `getline` returns, each with its newline if it has one. -/
def getlines : Bytes → List Bytes
  | [] => []
  | c :: file =>
    if c = newline then [c] :: getlines file
    else match getlines file with
      | [] => [[c]]
      | line :: lines => (c :: line) :: lines

structure Extraction where
  rc : ℕ
  written : ℕ
  dst : Bytes
  deriving DecidableEq

def extractLine (dstSize : ℕ) (x : Extraction) (line : Bytes) : Extraction :=
  let buf := line ++ [0]
  match tokenizeUserPassLine buf with
  | (none, _) => x
  | (some colon, endptr) =>
    if (passwordHashingCallback (buf.drop colon)).isNone then x
    else
      let entryLen := endptr + 1
      if x.written + entryLen < dstSize then
        let dst := memWrite x.dst x.written (buf.take (entryLen - 1))
        -- the terminator goes one byte past the entry's own
        ⟨x.rc + entryLen, x.written + entryLen, memWrite dst (x.written + entryLen) [0]⟩
      else { x with rc := x.rc + entryLen }

/-- The file position is restored at the end, so every call reads the same `src`. -/
def httpAuthExtractData (dst : Bytes) (dstSize : ℕ) (src : Bytes) : ℕ × Bytes :=
  let x := (getlines src).foldl (extractLine dstSize) ⟨0, 0, dst⟩
  (x.rc, x.dst)

def htpasswdSize (f : Bytes) : ℕ := (httpAuthExtractData [] 0 f).1

def htpasswdFread (dst : Bytes) (size count : ℕ) (stream : Bytes) : ℕ × Bytes :=
  let r := httpAuthExtractData dst (size * count) stream
  (r.1 / size, r.2)

/-- The part of `tls_data` that `start_http_loop` reserves and fills for the htpasswd file: its
size from the first pass, one more byte, all of it cleared. -/
def htpasswdDb (file : Bytes) : Bytes :=
  (htpasswdFread (List.replicate (htpasswdSize file + 1) 0) 1 (htpasswdSize file) file).2

/-- The scan loop; `none` while it is still running after `fuel` turns. -/
def httpAuthenticateLoop (user password : CStr) : ℕ → Bytes → Option Outcome
  | 0, _ => none
  | fuel + 1, cursor =>
    if cursor = [] then some .outOfBounds
    else if cursor.head? = some newline then some (.returned false)
    else
      let endOfLine := strchrnul cursor newline
      match strchr cursor userPassSeparator with
      | none => some .assertFailed
      | some colon =>
        if colon ≠ user.1.length then
          httpAuthenticateLoop user password fuel (cursor.drop endOfLine)
        else if strncmp user (strAt cursor) user.1.length = 0 then
          match passwordHashingCallback (cursor.drop colon) with
          | none => some .nullCall
          | some cb => some (cb password (cursor.drop colon))
        else
          -- right length, other user: the cursor stays where it is
          httpAuthenticateLoop user password fuel cursor

def httpAuthenticate (fuel : ℕ) (user password : CStr) (db : Bytes) : Option Outcome :=
  httpAuthenticateLoop user password fuel db

structure Entry where
  user : Bytes
  pass : Bytes
  deriving DecidableEq

def Entry.text (e : Entry) : Bytes := e.user ++ plainHashingCallbackPrefix.1 ++ e.pass

def Entry.stored (e : Entry) : Bytes := e.text ++ [0]

def acceptedEntry (line : Bytes) : Option Entry :=
  let text := line.takeWhile fun b ↦ b ≠ newline ∧ b ≠ 0
  let user := text.takeWhile (· ≠ userPassSeparator)
  if plainHashingCallbackPrefix.1 <+: text.drop user.length then
    some ⟨user, text.drop (user.length + plainHashingCallbackPrefix.1.length)⟩
  else none

def acceptedEntries (file : Bytes) : List Entry := (getlines file).filterMap acceptedEntry

structure Entry.Clean (e : Entry) : Prop where
  separator : userPassSeparator ∉ e.user
  newline : newline ∉ e.text
  terminator : (0 : UInt8) ∉ e.text

theorem prefix_eq : plainHashingCallbackPrefix.1 = [58, 123, 80, 76, 65, 73, 78, 125] := by decide

theorem acceptedEntry_some {line : Bytes} {e : Entry} (h : acceptedEntry line = some e) :
    e.Clean ∧ line.takeWhile (fun b ↦ b ≠ newline ∧ b ≠ 0) = e.text := by
  unfold acceptedEntry at h
  set text := line.takeWhile fun b ↦ b ≠ newline ∧ b ≠ 0 with htext
  simp only at h
  split_ifs at h with hp
  obtain ⟨pass, hpass⟩ := hp
  have hsplit : text.takeWhile (· ≠ userPassSeparator) ++
      text.drop (text.takeWhile (· ≠ userPassSeparator)).length = text := by
    rw [← List.prefix_iff_eq_append]
    exact List.takeWhile_prefix _
  have he : e.text = text := by
    obtain rfl := Option.some.inj h
    simp only [Entry.text]
    rw [← List.drop_drop, ← hpass, List.drop_left, List.append_assoc, hpass, hsplit]
  have hbytes : ∀ b ∈ text, b ≠ newline ∧ b ≠ 0 := by
    intro b hb
    simpa using List.mem_takeWhile_imp hb
  have huser : e.user = text.takeWhile (· ≠ userPassSeparator) := by
    obtain rfl := Option.some.inj h
    rfl
  refine ⟨⟨?_, ?_, ?_⟩, he.symm⟩
  · intro hm
    rw [huser] at hm
    simpa using List.mem_takeWhile_imp hm
  · rw [he]
    exact fun hm ↦ (hbytes _ hm).1 rfl
  · rw [he]
    exact fun hm ↦ (hbytes _ hm).2 rfl

theorem passwordHashingCallback_eq (mem : Bytes) :
    passwordHashingCallback mem =
      if plainHashingCallbackPrefix.1 <+: (strAt mem).1 then some plainHashingCallback else none := by
  have h : strncmp (strAt mem) plainHashingCallbackPrefix plainHashingCallbackPrefix.1.length = 0 ↔
      plainHashingCallbackPrefix.1 <+: (strAt mem).1 := by
    rw [strncmp_eq_zero_iff, List.take_length, List.prefix_iff_eq_take, eq_comm]
  by_cases hp : plainHashingCallbackPrefix.1 <+: (strAt mem).1
  · simp [passwordHashingCallback, h.mpr hp, hp]
  · simp [passwordHashingCallback, h.not.mpr hp, hp]

def WholeLine (line : Bytes) : Prop :=
  ∃ body, newline ∉ body ∧ (line = body ∨ line = body ++ [newline])

theorem wholeLine_getlines (file : Bytes) : ∀ line ∈ getlines file, WholeLine line := by
  induction file with
  | nil => simp [getlines]
  | cons c file ih =>
    by_cases hc : c = newline
    · rw [getlines, if_pos hc]
      intro line hl
      rcases List.mem_cons.mp hl with rfl | hl
      · exact ⟨[], by simp, .inr (by simp [hc])⟩
      · exact ih line hl
    · rw [getlines, if_neg hc]
      cases hg : getlines file with
      | nil =>
        intro line hl
        obtain rfl := List.mem_singleton.mp hl
        exact ⟨[c], by simpa using Ne.symm hc, .inl rfl⟩
      | cons first lines =>
        rw [hg] at ih
        intro line hl
        rcases List.mem_cons.mp hl with rfl | hl
        · obtain ⟨body, hb, h⟩ := ih first (by simp)
          refine ⟨c :: body, by simp [hb, Ne.symm hc], ?_⟩
          rcases h with rfl | rfl
          · exact .inl rfl
          · exact .inr rfl
        · exact ih line (by simp [hl])

theorem buffer_shape {line : Bytes} (h : WholeLine line) :
    ∃ x rest, line ++ [0] = line.takeWhile (fun b ↦ b ≠ newline ∧ b ≠ 0) ++ x :: rest ∧
      (x = newline ∧ rest = [0] ∨ x = 0) := by
  obtain ⟨body, hb, hl⟩ := h
  set p : UInt8 → Bool := fun b ↦ b ≠ newline ∧ b ≠ 0
  have hsplit : line.takeWhile p ++ line.dropWhile p = line := List.takeWhile_append_dropWhile
  cases hd : line.dropWhile p with
  | nil =>
    rw [hd, List.append_nil] at hsplit
    exact ⟨0, [], by rw [hsplit], .inr rfl⟩
  | cons x rest =>
    rw [hd] at hsplit
    have hx : ¬ p x := by
      have h := List.head_dropWhile_not (l := line) p (by simp [hd])
      simpa [hd] using h
    by_cases h0 : x = 0
    · subst h0
      exact ⟨0, rest ++ [0], by simpa using congrArg (· ++ [(0 : UInt8)]) hsplit.symm, .inr rfl⟩
    · have hnl : x = newline := by
        by_contra hne
        exact hx (by simp [p, hne, h0])
      subst hnl
      have hrest : rest = [] := by
        by_contra hne
        have hmem : newline ∈ line.dropLast := by
          rw [← hsplit, List.dropLast_append_of_ne_nil (by simp),
            List.dropLast_cons_of_ne_nil hne]
          simp
        rcases hl with rfl | rfl
        · exact hb (List.dropLast_subset _ hmem)
        · rw [List.dropLast_concat] at hmem
          exact hb hmem
      subst hrest
      exact ⟨newline, [0], by simpa using congrArg (· ++ [(0 : UInt8)]) hsplit.symm,
        .inl ⟨rfl, rfl⟩⟩

theorem tokenize_no_colon {text rest : Bytes} {c : UInt8} (hcolon : userPassSeparator ∉ text)
    (h0 : (0 : UInt8) ∉ text) (hc : c = newline ∧ rest = [0] ∨ c = 0) :
    (tokenizeUserPassLine (text ++ c :: rest)).1 = none := by
  have hend : ∃ s rest', text ++ c :: rest = s ++ 0 :: rest' ∧ userPassSeparator ∉ s ∧
      (0 : UInt8) ∉ s := by
    rcases hc with ⟨rfl, rfl⟩ | rfl
    · refine ⟨text ++ [newline], [], by simp, ?_, ?_⟩
      · simpa [hcolon] using (by decide : userPassSeparator ≠ newline)
      · simpa [h0] using (by decide : (0 : UInt8) ≠ newline)
    · exact ⟨text, rest, rfl, hcolon, h0⟩
  obtain ⟨s, rest', he, hs, hs0⟩ := hend
  rw [he, tokenizeUserPassLine, strchrnul_append s rest' _ 0 hs hs0 (.inr rfl)]
  simp [show (0 : UInt8) ≠ userPassSeparator by decide]

theorem tokenize_colon {user after : Bytes} {c : UInt8} (rest : Bytes) (hcolon : userPassSeparator ∉ user)
    (h0 : (0 : UInt8) ∉ user ++ userPassSeparator :: after)
    (hnl : newline ∉ user ++ userPassSeparator :: after) (hc : c = newline ∨ c = 0) :
    tokenizeUserPassLine (user ++ userPassSeparator :: after ++ c :: rest) =
      (some user.length, (user ++ userPassSeparator :: after).length) := by
  have hfirst : strchrnul (user ++ userPassSeparator :: after ++ c :: rest) userPassSeparator =
      user.length := by
    rw [List.append_assoc]
    exact strchrnul_append user _ _ _ hcolon (fun h ↦ h0 (by simp [h])) (.inl rfl)
  have hlast : strchrnul (userPassSeparator :: after ++ c :: rest) newline =
      (userPassSeparator :: after).length :=
    strchrnul_append _ rest newline c (fun h ↦ hnl (List.mem_append_right _ h))
      (fun h ↦ h0 (List.mem_append_right _ h)) hc
  rw [tokenizeUserPassLine, hfirst]
  simp only [List.append_assoc, List.drop_left, List.cons_append] at hlast ⊢
  simp [hlast]

theorem callback_at_colon {c : UInt8} (after rest : Bytes)
    (h0 : (0 : UInt8) ∉ userPassSeparator :: after) (hc : c = newline ∧ rest = [0] ∨ c = 0) :
    (passwordHashingCallback (userPassSeparator :: after ++ c :: rest)).isNone ↔
      ¬ plainHashingCallbackPrefix.1 <+: userPassSeparator :: after := by
  have hnone (mem : Bytes) : (passwordHashingCallback mem).isNone ↔
      ¬ plainHashingCallbackPrefix.1 <+: (strAt mem).1 := by
    rw [passwordHashingCallback_eq]
    split <;> simp_all
  rw [hnone, not_iff_not]
  rcases hc with ⟨rfl, rfl⟩ | rfl
  · have h0' : (0 : UInt8) ∉ userPassSeparator :: after ++ [newline] := by
      simpa [List.mem_append, not_or, newline] using h0
    have he := strAt_append (userPassSeparator :: after ++ [newline]) [] h0'
    rw [List.append_assoc, List.singleton_append] at he
    rw [he, List.prefix_concat_iff, or_iff_right]
    -- the marker itself holds no newline
    intro hp
    have hm : newline ∈ plainHashingCallbackPrefix.1 := by simp [hp]
    exact absurd hm (by decide)
  · rw [strAt_append _ _ h0]

def extractEntry (dstSize : ℕ) (x : Extraction) (e : Entry) : Extraction :=
  if x.written + e.stored.length < dstSize then
    ⟨x.rc + e.stored.length, x.written + e.stored.length,
      memWrite (memWrite x.dst x.written e.text) (x.written + e.stored.length) [0]⟩
  else { x with rc := x.rc + e.stored.length }

theorem acceptedEntry_no_colon {line : Bytes}
    (hcolon : userPassSeparator ∉ line.takeWhile fun b ↦ b ≠ newline ∧ b ≠ 0) :
    acceptedEntry line = none := by
  have hall : (line.takeWhile (fun b ↦ b ≠ newline ∧ b ≠ 0)).takeWhile (· ≠ userPassSeparator) =
      line.takeWhile (fun b ↦ b ≠ newline ∧ b ≠ 0) := by
    rw [List.takeWhile_eq_self_iff]
    intro b hb
    simpa using fun he : b = userPassSeparator ↦ hcolon (he ▸ hb)
  unfold acceptedEntry
  simp only [hall, List.drop_length]
  rw [if_neg (by decide)]

theorem acceptedEntry_colon {line user after : Bytes}
    (hua : line.takeWhile (fun b ↦ b ≠ newline ∧ b ≠ 0) = user ++ userPassSeparator :: after)
    (hu : userPassSeparator ∉ user) :
    acceptedEntry line =
      if plainHashingCallbackPrefix.1 <+: userPassSeparator :: after then
        some ⟨user, (userPassSeparator :: after).drop plainHashingCallbackPrefix.1.length⟩
      else none := by
  have huser : (user ++ userPassSeparator :: after).takeWhile (· ≠ userPassSeparator) = user := by
    rw [List.takeWhile_append_of_pos]
    · simp
    · intro b hb
      simpa using fun he : b = userPassSeparator ↦ hu (he ▸ hb)
  unfold acceptedEntry
  simp only [hua, huser, ← List.drop_drop, List.drop_left]

theorem extractLine_colon (dstSize : ℕ) (x : Extraction) {line user after rest : Bytes} {c : UInt8}
    (hbuf : line ++ [0] = user ++ userPassSeparator :: after ++ c :: rest)
    (hu : userPassSeparator ∉ user) (h0 : (0 : UInt8) ∉ user ++ userPassSeparator :: after)
    (hnl : newline ∉ user ++ userPassSeparator :: after) (hc : c = newline ∧ rest = [0] ∨ c = 0) :
    extractLine dstSize x line =
      if plainHashingCallbackPrefix.1 <+: userPassSeparator :: after then
        extractEntry dstSize x
          ⟨user, (userPassSeparator :: after).drop plainHashingCallbackPrefix.1.length⟩
      else x := by
  have htok := tokenize_colon rest hu h0 hnl (hc.imp_left And.left)
  have hdrop : (user ++ userPassSeparator :: after ++ c :: rest).drop user.length =
      userPassSeparator :: after ++ c :: rest := by
    rw [List.append_assoc, List.drop_left]
  have hcb := callback_at_colon after rest (fun hm ↦ h0 (List.mem_append_right _ hm)) hc
  unfold extractLine
  rw [hbuf]
  simp only [htok, hdrop, Nat.add_sub_cancel, List.take_left]
  by_cases hp : plainHashingCallbackPrefix.1 <+: userPassSeparator :: after
  · rw [if_neg (hcb.not.mpr (not_not_intro hp)), if_pos hp]
    obtain ⟨pass, hpass⟩ := hp
    have hstored : user ++ userPassSeparator :: after = Entry.text ⟨user, pass⟩ := by
      rw [← hpass, Entry.text, List.append_assoc]
    rw [← hpass, List.drop_left, hpass]
    simp only [hstored, extractEntry, Entry.stored, List.length_append, List.length_singleton]
  · rw [if_pos (hcb.mpr hp), if_neg hp]

theorem extractLine_eq (dstSize : ℕ) (x : Extraction) {line : Bytes} (h : WholeLine line) :
    extractLine dstSize x line = (acceptedEntry line).elim x (extractEntry dstSize x) := by
  obtain ⟨c, rest, hbuf, hc⟩ := buffer_shape h
  have htext : ∀ b ∈ line.takeWhile (fun b ↦ b ≠ newline ∧ b ≠ 0), b ≠ newline ∧ b ≠ 0 := by
    intro b hb
    simpa using List.mem_takeWhile_imp hb
  have h0 : (0 : UInt8) ∉ line.takeWhile (fun b ↦ b ≠ newline ∧ b ≠ 0) :=
    fun hm ↦ (htext _ hm).2 rfl
  have hnl : newline ∉ line.takeWhile (fun b ↦ b ≠ newline ∧ b ≠ 0) := fun hm ↦ (htext _ hm).1 rfl
  by_cases hcolon : userPassSeparator ∈ line.takeWhile (fun b ↦ b ≠ newline ∧ b ≠ 0)
  · have hline : ∃ user after, line.takeWhile (fun b ↦ b ≠ newline ∧ b ≠ 0) =
        user ++ userPassSeparator :: after ∧ userPassSeparator ∉ user :=
      List.eq_append_cons_of_mem hcolon
    obtain ⟨user, after, hua, hu⟩ := hline
    rw [hua] at hbuf h0 hnl
    rw [acceptedEntry_colon hua hu, extractLine_colon dstSize x hbuf hu h0 hnl hc]
    split <;> rfl
  · have htok := tokenize_no_colon hcolon h0 hc
    rw [acceptedEntry_no_colon hcolon]
    unfold extractLine
    rw [hbuf]
    simp only
    generalize tokenizeUserPassLine _ = r at htok ⊢
    obtain ⟨a, b⟩ := r
    obtain rfl : a = none := htok
    rfl

theorem foldl_extractLine (dstSize : ℕ) (lines : List Bytes) (h : ∀ line ∈ lines, WholeLine line)
    (x : Extraction) :
    lines.foldl (extractLine dstSize) x =
      (lines.filterMap acceptedEntry).foldl (extractEntry dstSize) x := by
  induction lines generalizing x with
  | nil => rfl
  | cons line lines ih =>
    rw [List.foldl_cons, extractLine_eq dstSize x (h line (by simp)),
      ih (fun l hl ↦ h l (by simp [hl])), List.filterMap_cons]
    cases acceptedEntry line <;> rfl

theorem httpAuthExtractData_eq (dst : Bytes) (dstSize : ℕ) (src : Bytes) :
    httpAuthExtractData dst dstSize src =
      (((acceptedEntries src).foldl (extractEntry dstSize) ⟨0, 0, dst⟩).rc,
        ((acceptedEntries src).foldl (extractEntry dstSize) ⟨0, 0, dst⟩).dst) := by
  unfold httpAuthExtractData acceptedEntries
  rw [foldl_extractLine dstSize _ (wholeLine_getlines src)]

def storedSize (es : List Entry) : ℕ := (es.map (·.stored.length)).sum

theorem Entry.stored_pos (e : Entry) : 0 < e.stored.length := by simp [Entry.stored]

theorem foldl_extractEntry_rc (dstSize : ℕ) (es : List Entry) (x : Extraction) :
    (es.foldl (extractEntry dstSize) x).rc = x.rc + storedSize es := by
  induction es generalizing x with
  | nil => rfl
  | cons e es ih =>
    have h : (extractEntry dstSize x e).rc = x.rc + e.stored.length := by
      unfold extractEntry
      split <;> rfl
    rw [List.foldl_cons, ih, h]
    simp only [storedSize, List.map_cons, List.sum_cons]
    omega

theorem htpasswdSize_eq (file : Bytes) : htpasswdSize file = storedSize (acceptedEntries file) := by
  unfold htpasswdSize
  rw [httpAuthExtractData_eq, foldl_extractEntry_rc, Nat.zero_add]

theorem extractEntry_zeros {done : Bytes} {e : Entry} {rc dstSize z : ℕ}
    (hroom : done.length + e.stored.length < dstSize) (hz : e.stored.length < z) :
    extractEntry dstSize ⟨rc, done.length, done ++ List.replicate z 0⟩ e =
      ⟨rc + e.stored.length, (done ++ e.stored).length,
        (done ++ e.stored) ++ List.replicate (z - e.stored.length) 0⟩ := by
  have hlen : e.stored.length = e.text.length + 1 := by simp [Entry.stored]
  have hz' : List.replicate (z - e.text.length) (0 : UInt8) =
      [0] ++ List.replicate (z - e.stored.length) 0 := by
    rw [List.singleton_append, ← List.replicate_succ]
    congr 1
    omega
  have hoff : done.length + e.stored.length = (done ++ e.text).length + 1 := by
    rw [hlen, List.length_append]
    omega
  simp only [extractEntry, if_pos hroom, List.length_append]
  congr 1
  rw [memWrite_zeros, hoff, memWrite_zero _ _ _ (by omega), hz']
  simp [Entry.stored]

/-- The filling pass stores every accepted entry but the last one: its strict comparison against
the exact size never lets the entry that ends the database in. -/
theorem foldl_extractEntry_dst (es : List Entry) (rc : ℕ) (done : Bytes) :
    (es.foldl (extractEntry (done.length + storedSize es))
        ⟨rc, done.length, done ++ List.replicate (storedSize es + 1) 0⟩).dst =
      done ++ es.dropLast.flatMap Entry.stored ++
        List.replicate ((es.getLast?.elim 0 (·.stored.length)) + 1) 0 := by
  induction es generalizing rc done with
  | nil => simp [storedSize]
  | cons e es ih =>
    cases es with
    | nil =>
      simp [extractEntry, storedSize]
    | cons e' es =>
      have hsum : storedSize (e :: e' :: es) = e.stored.length + storedSize (e' :: es) := by
        simp [storedSize]
      have hpos : 0 < storedSize (e' :: es) := by
        have h := e'.stored_pos
        simp only [storedSize, List.map_cons, List.sum_cons]
        omega
      have hih := ih (rc + e.stored.length) (done ++ e.stored)
      rw [List.foldl_cons, extractEntry_zeros (by omega) (by omega)]
      have hsize : done.length + storedSize (e :: e' :: es) =
          (done ++ e.stored).length + storedSize (e' :: es) := by
        rw [hsum, List.length_append]
        omega
      have hz : storedSize (e :: e' :: es) + 1 - e.stored.length = storedSize (e' :: es) + 1 := by
        omega
      rw [hsize, hz, hih]
      simp [List.append_assoc]

theorem htpasswdDb_eq (file : Bytes) :
    htpasswdDb file = (acceptedEntries file).dropLast.flatMap Entry.stored ++
      List.replicate (((acceptedEntries file).getLast?.elim 0 (·.stored.length)) + 1) 0 := by
  have h := foldl_extractEntry_dst (acceptedEntries file) 0 []
  simp only [List.length_nil, Nat.zero_add, List.nil_append] at h
  unfold htpasswdDb htpasswdFread
  rw [httpAuthExtractData_eq, htpasswdSize_eq, Nat.one_mul, h]

theorem loop_terminator (user password : CStr) (fuel : ℕ) (rest : Bytes) :
    httpAuthenticateLoop user password (fuel + 1) (0 :: rest) = some .assertFailed := by
  have h := strchr_terminated [] rest userPassSeparator (by decide) (by simp) (by simp)
  rw [List.nil_append] at h
  simp [httpAuthenticateLoop, h, newline]

theorem plainHashingCallback_stored (password : CStr) (e : Entry) (he : e.Clean) (rest : Bytes) :
    plainHashingCallback password ((e.stored ++ rest).drop e.user.length) =
      if plainHashingCallbackPrefix.1 <+: password.1 then .returned (e.pass = password.1)
      else .assertFailed := by
  have h0 : (0 : UInt8) ∉ e.pass := fun h ↦ he.terminator (by simp [Entry.text, h])
  have hdrop : ((e.stored ++ rest).drop e.user.length).drop plainHashingCallbackPrefix.1.length =
      e.pass ++ 0 :: rest := by
    simp only [Entry.stored, Entry.text, List.append_assoc, List.drop_left, List.singleton_append]
  have hplain : strncmp password plainHashingCallbackPrefix plainHashingCallbackPrefix.1.length = 0 ↔
      plainHashingCallbackPrefix.1 <+: password.1 := by
    rw [strncmp_eq_zero_iff, List.take_length, List.prefix_iff_eq_take, eq_comm]
  have hpass : strcmp (strAt (e.pass ++ 0 :: rest)) password = 0 ↔ e.pass = password.1 := by
    rw [strcmp_eq_zero_iff, Subtype.ext_iff, strAt_append e.pass rest h0]
  unfold plainHashingCallback
  rw [hdrop]
  by_cases hp : plainHashingCallbackPrefix.1 <+: password.1
  · rw [if_neg (not_not_intro (hplain.mpr hp)), if_pos hp]
    simp only [hpass]
  · rw [if_pos (hplain.not.mpr hp), if_neg hp]

theorem loop_stored (user password : CStr) (fuel : ℕ) (e : Entry) (he : e.Clean) (rest : Bytes) :
    httpAuthenticateLoop user password (fuel + 1) (e.stored ++ rest) =
      if e.user.length ≠ user.1.length then httpAuthenticateLoop user password fuel (0 :: rest)
      else if e.user = user.1 then
        some (if plainHashingCallbackPrefix.1 <+: password.1 then .returned (e.pass = password.1)
          else .assertFailed)
      else httpAuthenticateLoop user password fuel (e.stored ++ rest) := by
  have hmem : e.stored ++ rest = e.text ++ 0 :: rest := by simp [Entry.stored]
  have htext : e.text = e.user ++ userPassSeparator :: (plainHashingCallbackPrefix.1.tail ++ e.pass) := by
    simp [Entry.text, prefix_eq, userPassSeparator]
  have hne : e.stored ++ rest ≠ [] := by simp [Entry.stored]
  have hhead : (e.stored ++ rest).head? ≠ some newline := by
    intro h
    rw [hmem, htext] at h
    have hn := he.newline
    rw [htext] at hn
    cases hu : e.user with
    | nil => simp [hu, userPassSeparator, newline] at h
    | cons b us => simp_all
  have hcolon : strchr (e.stored ++ rest) userPassSeparator = some e.user.length := by
    rw [hmem, htext, List.append_assoc]
    exact strchr_append _ _ _ he.separator (fun h ↦ he.terminator (by simp [htext, h]))
  have heol : (e.stored ++ rest).drop (strchrnul (e.stored ++ rest) newline) = 0 :: rest := by
    rw [hmem, strchrnul_append e.text rest newline 0 he.newline he.terminator (.inr rfl),
      List.drop_left]
  have hcb : passwordHashingCallback ((e.stored ++ rest).drop e.user.length) =
      some plainHashingCallback := by
    have hstr : (e.stored ++ rest).drop e.user.length =
        (plainHashingCallbackPrefix.1 ++ e.pass) ++ 0 :: rest := by
      simp [Entry.stored, Entry.text]
    rw [passwordHashingCallback_eq, hstr, strAt_append _ _ (fun h ↦ he.terminator (by
      simpa [Entry.text] using .inr (List.mem_append.mp h)))]
    simp
  have hat : (strAt (e.stored ++ rest)).1 = e.text := by
    rw [hmem, strAt_append _ _ he.terminator]
  rw [httpAuthenticateLoop, if_neg hne, if_neg hhead]
  simp only [hcolon, heol]
  by_cases hlen : e.user.length = user.1.length
  · have huser : strncmp user (strAt (e.stored ++ rest)) user.1.length = 0 ↔ e.user = user.1 := by
      rw [strncmp_eq_zero_iff, hat, List.take_length, ← hlen, Entry.text, List.append_assoc,
        List.take_left, eq_comm]
    rw [if_neg (not_not_intro hlen), if_neg (not_not_intro hlen)]
    by_cases hu : e.user = user.1
    · rw [if_pos (huser.mpr hu), if_pos hu, hcb]
      simp only [plainHashingCallback_stored password e he rest]
    · rw [if_neg (huser.not.mpr hu), if_neg hu]
  · rw [if_pos hlen, if_pos hlen]

theorem clean_of_mem (file : Bytes) {e : Entry} (he : e ∈ acceptedEntries file) : e.Clean := by
  obtain ⟨line, -, hl⟩ := List.mem_filterMap.mp he
  exact (acceptedEntry_some hl).1

theorem htpasswdDb_short (file : Bytes) (h : (acceptedEntries file).length < 2) :
    ∃ rest, htpasswdDb file = 0 :: rest := by
  rw [htpasswdDb_eq]
  have hd : (acceptedEntries file).dropLast = [] := List.eq_nil_of_length_eq_zero (by simp; omega)
  exact ⟨_, by rw [hd, List.flatMap_nil, List.nil_append, List.replicate_succ]⟩

theorem htpasswdDb_long {file : Bytes} {e e' : Entry} {es : List Entry}
    (h : acceptedEntries file = e :: e' :: es) : ∃ rest, htpasswdDb file = e.stored ++ rest := by
  rw [htpasswdDb_eq, h, List.dropLast_cons_of_ne_nil (by simp), List.flatMap_cons,
    List.append_assoc]
  exact ⟨_, rfl⟩

/-- A run that neither fails an assertion nor keeps turning for ever, and answers by the file. -/
def DecidesByFile (file : Bytes) (user password : CStr) : Prop :=
  ∃ fuel allowed, httpAuthenticate fuel user password (htpasswdDb file) = some (.returned allowed) ∧
    (allowed = true ↔
      ((acceptedEntries file).find? (·.user = user.1)).map (·.pass) = some password.1)

theorem loop_terminator_ne_returned (user password : CStr) (fuel : ℕ) (rest : Bytes)
    (allowed : Bool) :
    httpAuthenticateLoop user password fuel (0 :: rest) ≠ some (.returned allowed) := by
  cases fuel with
  | zero => simp [httpAuthenticateLoop]
  | succ fuel => simp [loop_terminator]

/-- Only the first entry is ever compared: any other user ends in an assertion or never ends. -/
theorem loop_returned {user password : CStr} {fuel : ℕ} {e : Entry} (he : e.Clean) {rest : Bytes}
    {allowed : Bool}
    (h : httpAuthenticateLoop user password fuel (e.stored ++ rest) = some (.returned allowed)) :
    e.user = user.1 ∧ plainHashingCallbackPrefix.1 <+: password.1 := by
  induction fuel with
  | zero => simp [httpAuthenticateLoop] at h
  | succ fuel ih =>
    rw [loop_stored user password fuel e he rest] at h
    split_ifs at h with hlen hu hp
    · exact absurd h (loop_terminator_ne_returned user password fuel rest allowed)
    · exact ⟨hu, hp⟩
    · cases h
    · exact ih h

theorem decidesByFile_iff (file : Bytes) (user password : CStr) :
    DecidesByFile file user password ↔
      ∃ e e' es, acceptedEntries file = e :: e' :: es ∧ e.user = user.1 ∧
        plainHashingCallbackPrefix.1 <+: password.1 := by
  constructor
  · rintro ⟨fuel, allowed, h, -⟩
    match hes : acceptedEntries file with
    | [] =>
      obtain ⟨rest, hdb⟩ := htpasswdDb_short file (by simp [hes])
      rw [httpAuthenticate, hdb] at h
      exact absurd h (loop_terminator_ne_returned user password fuel rest allowed)
    | [e] =>
      obtain ⟨rest, hdb⟩ := htpasswdDb_short file (by simp [hes])
      rw [httpAuthenticate, hdb] at h
      exact absurd h (loop_terminator_ne_returned user password fuel rest allowed)
    | e :: e' :: es =>
      obtain ⟨rest, hdb⟩ := htpasswdDb_long hes
      rw [httpAuthenticate, hdb] at h
      have hclean : e.Clean := clean_of_mem file (by simp [hes])
      obtain ⟨hu, hp⟩ := loop_returned hclean h
      exact ⟨e, e', es, rfl, hu, hp⟩
  · rintro ⟨e, e', es, hes, hu, hp⟩
    obtain ⟨rest, hdb⟩ := htpasswdDb_long hes
    have hclean : e.Clean := clean_of_mem file (by simp [hes])
    refine ⟨1, e.pass = password.1, ?_, ?_⟩
    · rw [httpAuthenticate, hdb, loop_stored user password 0 e hclean rest,
        if_neg (by simp [hu]), if_pos hu, if_pos hp]
    · rw [hes, List.find?_cons_of_pos (by simpa using hu)]
      simp

theorem valid_password_fails_assertion :
    ¬ DecidesByFile (ascii "user1:{PLAIN}password1\nuser2:{PLAIN}password2\n")
      (lit "user1") (lit "password1") := by
  rintro ⟨fuel, allowed, h, -⟩
  cases fuel with
  | zero => cases h
  | succ fuel =>
    have hdb : htpasswdDb (ascii "user1:{PLAIN}password1\nuser2:{PLAIN}password2\n") =
        Entry.stored ⟨ascii "user1", ascii "password1"⟩ ++ List.replicate 24 0 := by decide
    rw [httpAuthenticate, hdb, loop_stored _ _ _ _ ⟨by decide, by decide, by decide⟩,
      if_neg (by decide), if_pos (by decide), if_neg (by decide)] at h
    cases h

end N2Kafka.Listener.HttpAuth
