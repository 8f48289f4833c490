import Mathlib.Data.Set.List
import N2Kafka.Listener.HttpAuth

namespace N2Kafka.Listener.HtpasswdDatabase

open Lib.CString Listener.HttpAuth

/-- What both passes over a file are for: the second one gets the size that the first one counts,
with one more byte behind it, returns it again, and leaves the accepted entries there. -/
structure PassesAgree (file : Bytes) : Prop where
  returned : (httpAuthExtractData (List.replicate (htpasswdSize file + 1) 0) (htpasswdSize file)
    file).1 = htpasswdSize file
  stored : (acceptedEntries file).flatMap Entry.stored <+:
    (httpAuthExtractData (List.replicate (htpasswdSize file + 1) 0) (htpasswdSize file) file).2
  -- a write behind the last byte would make the memory longer
  inside : (httpAuthExtractData (List.replicate (htpasswdSize file + 1) 0) (htpasswdSize file)
    file).2.length = htpasswdSize file + 1

theorem returned_size (dst : Bytes) (dstSize : ℕ) (file : Bytes) :
    (httpAuthExtractData dst dstSize file).1 = htpasswdSize file := by
  rw [htpasswdSize_eq, httpAuthExtractData_eq, foldl_extractEntry_rc, Nat.zero_add]

theorem filled_eq (file : Bytes) :
    (httpAuthExtractData (List.replicate (htpasswdSize file + 1) 0) (htpasswdSize file) file).2 =
      htpasswdDb file := by
  unfold htpasswdDb htpasswdFread
  rw [Nat.one_mul]

theorem not_stored_prefix_zeros (e : Entry) (z : ℕ) : ¬ e.stored <+: List.replicate z 0 := by
  intro h
  have hcolon : userPassSeparator ∈ e.stored := by
    simp [Entry.stored, Entry.text, prefix_eq, userPassSeparator]
  have hzero := List.eq_of_mem_replicate (h.subset hcolon)
  exact absurd hzero (by decide)

/-- The filling pass never has room for the last entry, so the passes agree on a file without any. -/
theorem passesAgree_iff (file : Bytes) : PassesAgree file ↔ acceptedEntries file = [] := by
  constructor
  · intro h
    obtain hnil | ⟨es, e, hes⟩ := List.eq_nil_or_concat (acceptedEntries file)
    · exact hnil
    have hstored := h.stored
    rw [filled_eq, htpasswdDb_eq, hes, List.concat_eq_append, List.flatMap_append,
      List.flatMap_singleton, List.dropLast_concat, List.prefix_append_right_inj] at hstored
    exact absurd hstored (not_stored_prefix_zeros e _)
  · intro h
    have hsize : htpasswdSize file = 0 := by
      rw [htpasswdSize_eq, h]
      rfl
    refine ⟨returned_size _ _ file, ?_, ?_⟩
    · rw [h]
      exact List.nil_prefix
    · rw [filled_eq, htpasswdDb_eq, h, hsize]
      rfl

/-- The only user of a file is not stored. -/
theorem single_user_not_stored : ¬ PassesAgree (ascii "user:{PLAIN}pass\n") := by
  intro h
  have hstored := h.stored
  revert hstored
  decide

/-- The entries that are accepted hold no separator of the layout. -/
abbrev StoredEntry := {e : Entry // e.Clean}

def database (es : List StoredEntry) (spare : ℕ) : Bytes :=
  es.flatMap (·.1.stored) ++ List.replicate (spare + 1) 0

theorem htpasswdDb_eq_database (file : Bytes) : ∃ es spare, htpasswdDb file = database es spare := by
  have hclean : ∀ e ∈ (acceptedEntries file).dropLast, e.Clean :=
    fun e he ↦ clean_of_mem file (List.dropLast_subset _ he)
  have hdb := htpasswdDb_eq file
  generalize (acceptedEntries file).dropLast = stored at hclean hdb
  lift stored to List StoredEntry using hclean
  exact ⟨stored, _, by rw [hdb, database, List.flatMap_map]⟩

/-- The scan comes to an answer: it ends, at no assertion and inside of the database. -/
def Answers (db : Bytes) (user password : CStr) : Prop :=
  ∃ fuel allowed, httpAuthenticate fuel user password db = some (.returned allowed)

theorem not_answers_empty (user password : CStr) (spare : ℕ) :
    ¬ Answers (database [] spare) user password := by
  rintro ⟨fuel, allowed, h⟩
  have hdb : database [] spare = 0 :: List.replicate spare 0 := rfl
  rw [hdb] at h
  exact loop_terminator_ne_returned user password fuel _ allowed h

theorem answers_cons_iff (user password : CStr) (e : StoredEntry) (es : List StoredEntry)
    (spare : ℕ) : Answers (database (e :: es) spare) user password ↔
      e.1.user = user.1 ∧ plainHashingCallbackPrefix.1 <+: password.1 := by
  have hdb : database (e :: es) spare = e.1.stored ++ database es spare := by
    rw [database, database, List.flatMap_cons, List.append_assoc]
  rw [Answers, hdb]
  constructor
  · rintro ⟨fuel, allowed, h⟩
    exact loop_returned e.2 h
  · rintro ⟨huser, hplain⟩
    refine ⟨1, e.1.pass = password.1, ?_⟩
    rw [httpAuthenticate, loop_stored user password 0 e.1 e.2, if_neg (by simp [huser]),
      if_pos huser, if_pos hplain]

/-- Only the first user gets an answer, and only for a password that repeats the mark of the file. -/
theorem answers_iff (es : List StoredEntry) (spare : ℕ) (user password : CStr) :
    Answers (database es spare) user password ↔
      (∃ e ∈ es.head?, e.1.user = user.1) ∧ plainHashingCallbackPrefix.1 <+: password.1 := by
  cases es with
  | nil => simpa using fun h ↦ not_answers_empty user password spare h
  | cons e es => simpa using answers_cons_iff user password e es spare

def oneUser : StoredEntry := ⟨⟨ascii "user1", ascii "pass"⟩, by decide, by decide, by decide⟩

/-- Another user whose name has the same length is never answered, nor is the user himself. -/
theorem failed_login_not_answered :
    ¬ Answers (database [oneUser] 0) (lit "user2") (lit "pass") ∧
      ¬ Answers (database [oneUser] 0) (lit "user1") (lit "pass") ∧
      ¬ Answers (database [] 0) (lit "user1") (lit "pass") := by
  refine ⟨?_, ?_, not_answers_empty _ _ 0⟩
  · rw [answers_cons_iff]
    decide
  · rw [answers_cons_iff]
    decide

end N2Kafka.Listener.HtpasswdDatabase
