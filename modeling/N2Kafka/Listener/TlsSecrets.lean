import N2Kafka.Lib.Regions
import N2Kafka.Listener.HttpListeners

namespace N2Kafka.Listener.TlsSecrets

open Lib.CString Lib.Regions Listener.HttpLoop Listener.HttpListeners

variable {args : HttpLoopArgs} {decoder : Decoder} {env : Env} {w w' : World} {l : HttpListener}

/-- Where the daemon and `http_authenticate` look for a secret in `tls_data`. -/
def secretAt (l : HttpListener) (d : Daemon) : SecretFile → Option ℕ
  | .keyFile => d.memKey
  | .certFile => d.memCert
  | .clientCaTrust => d.memTrust
  | .htpasswd => l.htpasswd

/-- The cursor goes over the files that are configured, and leaves room for a terminator behind
each. -/
theorem readSecretFiles_mem : ∀ {fs : List SecretFile} {cursor : ℕ} {t t' : Table} {w w' : World},
    fs.Nodup → readSecretFiles args env fs cursor t w = (true, t', w') → ∀ g, t'.mem g =
      (place (fun f ↦ t.filesize f + 1) (fs.filter fun f ↦ (args.filename f).isSome) cursor g).or
        (t.mem g)
  | [], cursor, t, t', w, w', _, h, g => by
    obtain ⟨-, hrest⟩ := Prod.mk.inj h
    obtain ⟨rfl, -⟩ := Prod.mk.inj hrest
    rfl
  | f :: fs, cursor, t, t', w, w', hnodup, h, g => by
    obtain ⟨hf, hfs⟩ := List.nodup_cons.mp hnodup
    rw [readSecretFiles] at h
    cases hname : args.filename f with
    | none =>
      rw [hname] at h
      rw [List.filter_cons_of_neg (by simp [hname])]
      exact readSecretFiles_mem hfs h g
    | some name =>
      rw [hname] at h
      dsimp only at h
      split at h
      case isTrue => cases h
      case isFalse =>
        rw [readSecretFiles_mem hfs h g, List.filter_cons_of_pos (by simp [hname]), place]
        dsimp only
        by_cases hg : g = f
        · subst hg
          rw [if_pos rfl, place_eq_none fun hmem ↦ hf (List.mem_filter.mp hmem).1,
            Function.update_self]
          rfl
        · rw [if_neg hg, Function.update_of_ne hg, Nat.add_assoc]

theorem openSecretFiles_mem (args : HttpLoopArgs) (env : Env) :
    ∀ (fs : List SecretFile) (t : Table) (w : World),
    (openSecretFiles args env fs t w).2.1.mem = t.mem
  | [], t, w => rfl
  | f :: fs, t, w => by
    rw [openSecretFiles]
    split
    · exact openSecretFiles_mem args env fs t w
    · split
      · rfl
      · split
        · rfl
        · split
          · rfl
          · rw [openSecretFiles_mem args env fs]

structure Serves (args : HttpLoopArgs) (env : Env) (l : HttpListener) (d : Daemon) : Prop where
  accepted : args.Accepted
  tls : d.tls = args.tls
  laid : ∃ size : SecretFile → ℕ, (∀ f, (args.filename f).isSome →
      env.fileSizeCallback f = some (size f) ∧ size f ≤ env.fileReadCallback f) ∧
    (∀ f, secretAt l d f = place (fun f ↦ size f + 1) args.configured 0 f) ∧
    l.tlsDataSize = (args.configured.map fun f ↦ size f + 1).sum

theorem startListener_d {mode : PollingMode} {listener : HttpListener} {t : Table} {d : Daemon}
    (h : startListener args decoder env mode listener t w = (some l, w')) (hd : l.d = some d) :
    l.tlsDataSize = listener.tlsDataSize ∧ l.htpasswd = listener.htpasswd ∧ d.tls = args.tls ∧
      d.memKey = (if args.tls then t.mem .keyFile else none) ∧
      d.memCert = (if args.tls then t.mem .certFile else none) ∧
      d.memTrust = if args.tls then t.mem .clientCaTrust else none := by
  simp only [startListener] at h
  split at h
  · cases h
  · split at h
    · cases h
    · obtain ⟨hl, -⟩ := Prod.mk.inj h
      obtain rfl := Option.some.inj hl
      obtain rfl := Option.some.inj hd
      exact ⟨rfl, rfl, rfl, rfl, rfl, rfl⟩

theorem tlsFilesSize_eq (h : args.Accepted) (t : Table) :
    tlsFilesSize args t = (args.configured.map fun f ↦ t.filesize f + 1).sum := by
  cases hs : args.usesSecrets with
  | true => simp [tlsFilesSize, hs, HttpLoopArgs.configured]
  | false =>
    have hnil : args.configured = [] := by
      simp [HttpLoopArgs.configured, h.filename_eq_none hs]
    simp [tlsFilesSize, hs, hnil]

/-- Without a key there is no place that the flags of the daemon could hide. -/
theorem place_of_tls (h : args.Accepted) (size : SecretFile → ℕ) {f : SecretFile}
    (hf : f ≠ .htpasswd) : (if args.tls then place size args.configured 0 f else none) =
      place size args.configured 0 f := by
  cases htls : args.tls with
  | true => rfl
  | false =>
    have hkey : args.httpsKeyFilename = none := by simpa [HttpLoopArgs.tls] using htls
    have hcert := h.pair
    have hca := h.clientsCa
    rw [hkey] at hcert hca
    refine (place_eq_none fun hmem ↦ ?_).symm
    have hsome := HttpLoopArgs.mem_configured.mp hmem
    cases f with
    | keyFile => simp [HttpLoopArgs.filename, hkey] at hsome
    | certFile =>
      have hnone : args.httpsCertFilename = none := by simpa using hcert.symm
      simp [HttpLoopArgs.filename, hnone] at hsome
    | clientCaTrust =>
      have hnone : args.httpsClientsCaFilename = none := by simpa using hca
      simp [HttpLoopArgs.filename, hnone] at hsome
    | htpasswd => exact hf rfl

theorem startWithMode_serves {mode : PollingMode} {d : Daemon} (haccepted : args.Accepted)
    (h : startWithMode args decoder env mode w = (some l, w')) (hd : l.d = some d) :
    Serves args env l d := by
  by_cases hall : ∀ f, (args.filename f).isSome → Opens env f
  case neg =>
    rw [startWithMode_of_not_opened haccepted hall] at h
    cases h
  obtain ⟨t, ho, hr⟩ := openSecretFiles_opened haccepted w hall
  have hnone : t.mem = fun _ ↦ none := by
    have hmem := openSecretFiles_mem args env
      (if args.usesSecrets then secretFiles else []) Table.initial w
    rw [hr] at hmem
    exact hmem
  simp only [startWithMode, hr] at h
  split at h
  · cases h
  · split at h
    · obtain ⟨hl, -⟩ := Prod.mk.inj h
      obtain rfl := Option.some.inj hl
      cases hd
    · rename_i t' w₁ hread
      obtain ⟨hsize, hpasswd, htls, hkey, hcert, htrust⟩ := startListener_d h hd
      have hnodup : (if args.usesSecrets then secretFiles else []).Nodup := by
        split <;> decide
      have hmem (g : SecretFile) :
          t'.mem g = place (fun f ↦ t.filesize f + 1) args.configured 0 g := by
        rw [readSecretFiles_mem hnodup hread g, hnone, haccepted.filter_entries, Option.or_none]
      have hreading := readSecretFiles_reading args env
        (if args.usesSecrets then secretFiles else []) 0 t
        { w with files := args.configured + w.files, listeners := w.listeners + 1 }
      rw [hread] at hreading
      refine ⟨haccepted, htls, t.filesize, fun f hf ↦ ⟨ho.filesize f hf, ?_⟩, fun f ↦ ?_, ?_⟩
      · exact hreading.all_iff.mp rfl f (haccepted.mem_entries hf) hf
      · cases f with
        | keyFile => rw [secretAt, hkey, hmem, place_of_tls haccepted _ (by decide)]
        | certFile => rw [secretAt, hcert, hmem, place_of_tls haccepted _ (by decide)]
        | clientCaTrust => rw [secretAt, htrust, hmem, place_of_tls haccepted _ (by decide)]
        | htpasswd =>
          rw [secretAt, hpasswd]
          dsimp only
          split
          case isTrue => exact hmem .htpasswd
          case isFalse hno =>
            refine (place_eq_none fun hin ↦ hno ?_).symm
            exact HttpLoopArgs.mem_configured.mp hin
      · rw [hsize]
        exact tlsFilesSize_eq haccepted t

theorem startHttpLoop_serves {d : Daemon}
    (h : startHttpLoop args decoder env w = (some l, w')) (hd : l.d = some d) :
    Serves args env l d := by
  by_cases haccepted : args.Accepted
  · obtain ⟨mode, hm⟩ := startHttpLoop_of_accepted decoder env w haccepted
    rw [hm] at h
    exact startWithMode_serves haccepted h hd
  · rw [startHttpLoop_of_not_accepted decoder env w haccepted] at h
    cases h

/-- A listener that serves looks for its secrets where they were read: exactly those that are
configured, each of them whole and with room for a terminator, and no two on top of each other. -/
theorem secrets_in_place {d : Daemon} (h : startHttpLoop args decoder env w = (some l, w'))
    (hd : l.d = some d) :
    (∀ f, (secretAt l d f).isSome ↔ (args.filename f).isSome) ∧
      (∀ f m, secretAt l d f = some m → ∃ n, env.fileSizeCallback f = some n ∧
        n ≤ env.fileReadCallback f ∧ m + n < l.tlsDataSize) ∧
      ∀ f g m k a b, f ≠ g → secretAt l d f = some m → secretAt l d g = some k →
        env.fileSizeCallback f = some a → env.fileSizeCallback g = some b →
        m + a < k ∨ k + b < m := by
  obtain ⟨size, hsize, hplace, htotal⟩ := (startHttpLoop_serves h hd).laid
  have hiff (f : SecretFile) : (secretAt l d f).isSome ↔ (args.filename f).isSome := by
    rw [hplace, place_isSome_iff, HttpLoopArgs.mem_configured]
  have hsome {f : SecretFile} {m : ℕ} (hf : secretAt l d f = some m) :
      (args.filename f).isSome := (hiff f).mp (by rw [hf]; rfl)
  refine ⟨hiff, fun f m hf ↦ ?_, fun f g m k a b hne hf hg ha hb ↦ ?_⟩
  · obtain ⟨hn, hread⟩ := hsize f (hsome hf)
    have hwithin := (place_within ((hplace f).symm.trans hf)).2
    refine ⟨size f, hn, hread, ?_⟩
    omega
  · have hsizef := (hsize f (hsome hf)).1
    have hsizeg := (hsize g (hsome hg)).1
    rw [ha, Option.some.injEq] at hsizef
    rw [hb, Option.some.injEq] at hsizeg
    have hdisjoint := place_disjoint hne ((hplace f).symm.trans hf) ((hplace g).symm.trans hg)
    omega

theorem whole_files_in_place :
    ∃ l d w', startHttpLoop tlsArgs ⟨true, true, rfl⟩ wholeFiles nothing = (some l, w') ∧
      l.d = some d ∧ secretAt l d .keyFile = some 0 ∧ secretAt l d .certFile = some 21 ∧
      ((secretAt l d .certFile).isSome ↔ (tlsArgs.filename .certFile).isSome) := by
  obtain ⟨l, w', hl, d, hd, hkey, hcert⟩ : ∃ l w',
      startHttpLoop tlsArgs ⟨true, true, rfl⟩ wholeFiles nothing = (some l, w') ∧
        ∃ d, l.d = some d ∧ secretAt l d .keyFile = some 0 ∧ secretAt l d .certFile = some 21 :=
    ⟨_, _, rfl, _, rfl, rfl, rfl⟩
  exact ⟨l, d, w', hl, hd, hkey, hcert, (secrets_in_place hl hd).1 .certFile⟩

end N2Kafka.Listener.TlsSecrets
