import BuilderPro.Lib.Utf8
import BuilderPro.Orchd.Trust

/-!
# What a grant to spawn commits to

The fingerprint of a stdio server is a hash of its command, arguments and environment written one
after the other: NUL before each entry, `\x01` between a key and its value.  The bytes tell the
entries apart where no string holds a NUL, and arguments from environment where `\x01` is in values
only (`Separable.eq_of_bytes`); neither is checked of a server, and a grant for one invocation lets
another be spawned wherever they do not (`grant_commits_iff`).
-/

namespace BuilderPro

def nul : Char := '\x00'

/-- The separator of a key and its value. -/
def unitSep : Char := '\x01'

/-- What is spawned. -/
@[ext] structure StdioInvocation where
  command : String
  args : List String
  env : EnvMap
  deriving DecidableEq

namespace StdioInvocation

def bytes (i : StdioInvocation) : List UInt8 := canonicalStdioInvocation i.command i.args i.env

def fingerprint (host : ExtHost) (binary : String → Option (List UInt8)) (i : StdioInvocation) :
    String := stdioExecFingerprint host binary i.command i.args i.env

/-- No string holds a NUL, as for anything an operating system can spawn. -/
structure NulFree (i : StdioInvocation) : Prop where
  command : nul ∉ i.command.toList
  args : ∀ a ∈ i.args, nul ∉ a.toList
  env : ∀ e ∈ i.env.entries, nul ∉ e.1.toList ∧ nul ∉ e.2.toList

/-- Nor do arguments and keys hold the separator. -/
structure Separable (i : StdioInvocation) : Prop extends NulFree i where
  plain : ∀ a ∈ i.args, unitSep ∉ a.toList
  keys : ∀ e ∈ i.env.entries, unitSep ∉ e.1.toList

/-- A key and its value. -/
def entry (e : String × String) : List UInt8 := Utf8.bytes e.1 ++ 1 :: Utf8.bytes e.2

/-- The bytes between the NULs, past the command. -/
def fields (i : StdioInvocation) : List (List UInt8) :=
  i.args.map Utf8.bytes ++ i.env.entries.map entry

variable {i j : StdioInvocation}

theorem mem_zero {s : String} : (0 : UInt8) ∈ Utf8.bytes s ↔ nul ∈ s.toList :=
  Utf8.mem_bytes (c := nul) (by decide)

theorem mem_one {s : String} : (1 : UInt8) ∈ Utf8.bytes s ↔ unitSep ∈ s.toList :=
  Utf8.mem_bytes (c := unitSep) (by decide)

theorem bytes_eq_append (i : StdioInvocation) :
    i.bytes = Utf8.bytes i.command ++ i.fields.flatMap (0 :: ·) := by
  simp only [bytes, canonicalStdioInvocation, fields, List.flatMap_append, List.flatMap_map,
    List.append_assoc, entry, List.cons_append, Utf8.bytes]

theorem intercalate_cons_flatMap (sep : UInt8) (c : List UInt8) (fs : List (List UInt8)) :
    [sep].intercalate (c :: fs) = c ++ fs.flatMap (sep :: ·) := by
  induction fs generalizing c with
  | nil => simp
  | cons f fs ih => simp [List.intercalate_cons_cons, ih]

theorem bytes_eq (i : StdioInvocation) :
    i.bytes = [0].intercalate (Utf8.bytes i.command :: i.fields) := by
  rw [bytes_eq_append, intercalate_cons_flatMap]

/-! ### What the bytes tell apart -/

theorem NulFree.zero_not_mem (h : i.NulFree) :
    ∀ f ∈ Utf8.bytes i.command :: i.fields, (0 : UInt8) ∉ f := by
  intro f hf
  rcases List.mem_cons.1 hf with rfl | hf
  · exact fun h0 => h.command (mem_zero.1 h0)
  rcases List.mem_append.1 hf with hf | hf
  · obtain ⟨a, ha, rfl⟩ := List.mem_map.1 hf
    exact fun h0 => h.args a ha (mem_zero.1 h0)
  · obtain ⟨e, he, rfl⟩ := List.mem_map.1 hf
    intro h0
    rcases List.mem_append.1 h0 with h0 | h0
    · exact (h.env e he).1 (mem_zero.1 h0)
    · rcases List.mem_cons.1 h0 with h0 | h0
      · revert h0
        decide
      · exact (h.env e he).2 (mem_zero.1 h0)

/-- Without NULs the bytes give the command and each field back. -/
theorem NulFree.fields_eq (hi : i.NulFree) (hj : j.NulFree) (h : i.bytes = j.bytes) :
    i.command = j.command ∧ i.fields = j.fields := by
  rw [bytes_eq, bytes_eq] at h
  have hsplit := congrArg (List.splitOn 0) h
  rw [List.splitOn_intercalate 0 hi.zero_not_mem (List.cons_ne_nil _ _),
    List.splitOn_intercalate 0 hj.zero_not_mem (List.cons_ne_nil _ _), List.cons.injEq] at hsplit
  exact ⟨Utf8.bytes_inj hsplit.1, hsplit.2⟩

theorem one_mem_entry (e : String × String) : (1 : UInt8) ∈ entry e := by simp [entry]

theorem eq_of_parts (hc : i.command = j.command) (ha : i.args = j.args)
    (he : i.env.entries = j.env.entries) : i = j := by
  obtain ⟨c, a, e, he'⟩ := i
  obtain ⟨c', a', e', he''⟩ := j
  simp only at hc ha he
  subst hc ha he
  rfl

theorem args_of_map {as bs : List String}
    (h : as.map Utf8.bytes = bs.map Utf8.bytes) : as = bs :=
  List.map_injective_iff.2 (fun _ _ hs => Utf8.bytes_inj hs) h

/-- The arguments of fields without a separator. -/
theorem filter_fields (h : ∀ a ∈ i.args, unitSep ∉ a.toList) :
    i.fields.filter (fun f => !f.contains 1) = i.args.map Utf8.bytes ∧
      i.fields.filter (fun f => f.contains 1) = i.env.entries.map entry := by
  have ha : ∀ f ∈ i.args.map Utf8.bytes, f.contains 1 = false := by
    intro f hf
    obtain ⟨a, ha, rfl⟩ := List.mem_map.1 hf
    simpa using fun h1 => h a ha (mem_one.1 h1)
  have he : ∀ f ∈ i.env.entries.map entry, f.contains 1 = true := by
    intro f hf
    obtain ⟨e, -, rfl⟩ := List.mem_map.1 hf
    simpa using one_mem_entry e
  rw [fields, List.filter_append, List.filter_append]
  constructor
  · rw [List.filter_eq_self.2 fun f hf => by rw [ha f hf]; rfl,
      List.filter_eq_nil_iff.2 fun f hf => by rw [he f hf]; simp, List.append_nil]
  · rw [List.filter_eq_nil_iff.2 fun f hf => by rw [ha f hf]; simp,
      List.filter_eq_self.2 fun f hf => he f hf, List.nil_append]

theorem cut_entry {e : String × String} (h : unitSep ∉ e.1.toList) :
    Utf8.cut 1 (entry e) = (Utf8.bytes e.1, Utf8.bytes e.2) :=
  Utf8.cut_append fun h1 => h (mem_one.1 h1)

theorem entries_of_map {es es' : List (String × String)} (hes : ∀ e ∈ es, unitSep ∉ e.1.toList)
    (hes' : ∀ e ∈ es', unitSep ∉ e.1.toList) (h : es.map entry = es'.map entry) : es = es' := by
  have hcut := congrArg (List.map (Utf8.cut 1)) h
  rw [List.map_map, List.map_map,
    List.map_congr_left (f := Utf8.cut 1 ∘ entry) fun e he => cut_entry (hes e he),
    List.map_congr_left (f := Utf8.cut 1 ∘ entry) fun e he => cut_entry (hes' e he)] at hcut
  refine List.map_injective_iff.2 (fun e e' heq => ?_) hcut
  rw [Prod.mk.injEq] at heq
  exact Prod.ext (Utf8.bytes_inj heq.1) (Utf8.bytes_inj heq.2)

/-- Two invocations with no NUL, and with separators in values only, differ in their bytes. -/
theorem Separable.eq_of_bytes (hi : i.Separable) (hj : j.Separable) (h : i.bytes = j.bytes) :
    i = j := by
  obtain ⟨hc, hf⟩ := hi.toNulFree.fields_eq hj.toNulFree h
  obtain ⟨hai, hei⟩ := filter_fields hi.plain
  obtain ⟨haj, hej⟩ := filter_fields hj.plain
  rw [hf] at hai hei
  exact eq_of_parts hc (args_of_map (hai.symm.trans haj))
    (entries_of_map hi.keys hj.keys (hei.symm.trans hej))

/-! ### What they do not -/

def nulText : String := String.singleton nul

def unitText : String := String.singleton unitSep

theorem bytes_nulText : Utf8.bytes nulText = [0] := by rw [Utf8.bytes_eq]; rfl

theorem bytes_unitText : Utf8.bytes unitText = [1] := by rw [Utf8.bytes_eq]; rfl

/-- Everything past the command taken for a part of it. -/
def asCommand (i : StdioInvocation) : StdioInvocation where
  command := i.command ++ String.join (i.args.map (nulText ++ ·))
    ++ String.join (i.env.entries.map fun e => nulText ++ e.1 ++ unitText ++ e.2)
  args := []
  env := .empty

theorem bytes_asCommand (i : StdioInvocation) : i.asCommand.bytes = i.bytes := by
  rw [bytes_eq_append, bytes_eq_append]
  simp [asCommand, fields, EnvMap.empty, Utf8.bytes_append, Utf8.bytes_join, List.flatMap_map,
    bytes_nulText, bytes_unitText, entry]

/-- The bytes are no other invocation's exactly for a command alone, without NUL. -/
theorem bytes_alone_iff (i : StdioInvocation) :
    (∀ j : StdioInvocation, j.bytes = i.bytes → j = i) ↔
      nul ∉ i.command.toList ∧ i.args = [] ∧ i.env = .empty := by
  constructor
  · intro h
    have hself := h _ i.bytes_asCommand
    have hargs : i.args = [] := by rw [← hself]; rfl
    have henv : i.env = .empty := by rw [← hself]; rfl
    refine ⟨fun hnul => ?_, hargs, henv⟩
    obtain ⟨x, y, hxy⟩ : ∃ x y, i.command = x ++ nulText ++ y := Utf8.exists_split hnul
    have hcut := h ⟨x, [y], .empty⟩ (by
      rw [bytes_eq_append, bytes_eq_append, hxy]
      simp [fields, hargs, henv, EnvMap.empty, Utf8.bytes_append, bytes_nulText])
    rw [← hcut] at hargs
    simp at hargs
  · rintro ⟨hcmd, hargs, henv⟩ j hj
    have hbytes : i.bytes = Utf8.bytes i.command := by
      rw [bytes_eq_append, fields, hargs, henv]
      simp [EnvMap.empty]
    have hnone : j.fields = [] := by
      rcases hf : j.fields with _ | ⟨f, fs⟩
      · rfl
      · rw [bytes_eq_append, hf, hbytes] at hj
        exact (hcmd (mem_zero.1 (hj ▸ by simp))).elim
    obtain ⟨hja, hje⟩ := List.append_eq_nil_iff.1 hnone
    rw [hbytes, bytes_eq_append, hnone, List.flatMap_nil, List.append_nil] at hj
    refine eq_of_parts (Utf8.bytes_inj hj) ?_ ?_
    · rw [hargs, List.map_eq_nil_iff.1 hja]
    · rw [henv, List.map_eq_nil_iff.1 hje]
      rfl

/-- The first entry of the environment taken for a last argument. -/
def asArg (command : String) (args : List String) (k v : String) (env : EnvMap) :
    StdioInvocation :=
  ⟨command, args ++ [k ++ unitText ++ v], env⟩

/-- A map less its first entry. -/
def envTail (env : EnvMap) : EnvMap := ⟨env.entries.tail, env.sorted.tail⟩

theorem fields_asArg {command : String} {args : List String} {k v : String} {env : EnvMap}
    (h : env.entries.head? = some (k, v)) :
    (asArg command args k v (envTail env)).fields = (StdioInvocation.mk command args env).fields := by
  obtain ⟨es, hs⟩ := env
  rcases es with _ | ⟨e, es⟩
  · simp at h
  · obtain rfl : e = (k, v) := by simpa using h
    simp [fields, asArg, envTail, entry, Utf8.bytes_append, bytes_unitText]

theorem bytes_asArg {command : String} {args : List String} {k v : String} {env : EnvMap}
    (h : env.entries.head? = some (k, v)) :
    (asArg command args k v (envTail env)).bytes = (mk command args env).bytes := by
  rw [bytes_eq_append, bytes_eq_append, fields_asArg h]
  rfl

theorem nul_not_mem_joined {k v : String} (hk : nul ∉ k.toList) (hv : nul ∉ v.toList) :
    nul ∉ (k ++ unitText ++ v).toList := by
  have hne : nul ≠ unitSep := by decide
  simp [unitText, hk, hv, hne]

/-- Among what can be spawned, the bytes are no other invocation's exactly where the environment is
empty and the last argument could not be an entry of one. -/
theorem NulFree.alone_iff (hi : i.NulFree) :
    (∀ j : StdioInvocation, j.NulFree → j.bytes = i.bytes → j = i) ↔
      i.env = .empty ∧ ∀ a ∈ i.args.getLast?, unitSep ∉ a.toList := by
  obtain ⟨command, args, env⟩ := i
  constructor
  · intro h
    have henv : env.entries = [] := by
      rcases he : env.entries with _ | ⟨⟨k, v⟩, es⟩
      · rfl
      have hhead : env.entries.head? = some (k, v) := by rw [he]; rfl
      have hkv := hi.env (k, v) (by simp [he])
      have hself := h (asArg command args k v (envTail env))
        ⟨hi.command, fun a ha => ?_, fun e hmem => hi.env e (List.mem_of_mem_tail hmem)⟩
        (bytes_asArg hhead)
      · have hargs : args ++ [k ++ unitText ++ v] = args := congrArg StdioInvocation.args hself
        simp at hargs
      · rcases List.mem_append.1 ha with ha | ha
        · exact hi.args a ha
        · rw [List.mem_singleton.1 ha]
          exact nul_not_mem_joined hkv.1 hkv.2
    obtain ⟨es, hs⟩ := env
    obtain rfl : es = [] := henv
    refine ⟨rfl, fun a ha hsep => ?_⟩
    obtain ⟨k, v, hkv⟩ : ∃ k v, a = k ++ unitText ++ v := Utf8.exists_split hsep
    obtain ⟨init, hinit⟩ : ∃ init, args = init ++ [a] :=
      ⟨args.dropLast, (List.dropLast_append_getLast? a ha).symm⟩
    have hnul := hi.args a (by simp [hinit])
    have hself := h ⟨command, init, ⟨[(k, v)], List.pairwise_singleton _ _⟩⟩
      ⟨hi.command, fun b hb => hi.args b (by simp [hinit, hb]), fun e hmem => ?_⟩
      (by rw [← bytes_asArg (k := k) (v := v) rfl, hinit, hkv]; rfl)
    · have := congrArg (fun i => i.env.entries) hself
      simp at this
    · rw [List.mem_singleton.1 hmem]
      rw [hkv] at hnul
      simp only [String.toList_append, List.mem_append, not_or] at hnul
      exact ⟨hnul.1.1, hnul.2⟩
  · rintro ⟨henv, hlast⟩ j hj hbytes
    obtain ⟨hc, hf⟩ := hj.fields_eq hi hbytes
    have henv : env = .empty := henv
    have hnone : j.env.entries = [] := by
      by_contra hne
      have hjlast : j.fields.getLast? = (j.env.entries.getLast?).map entry := by
        rw [fields, List.getLast?_append_of_ne_nil _ (by simpa using hne), List.getLast?_map]
      rcases he : j.env.entries.getLast? with _ | e
      · exact hne (List.getLast?_eq_none_iff.1 he)
      · rw [he, hf, fields, henv, EnvMap.empty, List.map_nil, List.append_nil,
          List.getLast?_map] at hjlast
        obtain ⟨a, ha, hae⟩ := Option.map_eq_some_iff.1 hjlast
        exact hlast a ha (mem_one.1 (hae ▸ one_mem_entry e))
    refine eq_of_parts hc (args_of_map ?_) (by rw [hnone, henv]; rfl)
    rw [fields, fields, hnone, henv, EnvMap.empty, List.map_nil, List.append_nil,
      List.append_nil] at hf
    exact hf

/-! ### Grants -/

section Grants

variable {host : ExtHost} {binary binary' : String → Option (List UInt8)}

/-- A hash that no two texts share, in letters that hold no colon: the fingerprint gives the
bytes back. -/
theorem bytes_of_fingerprint (hinj : Function.Injective host.sha256Hex)
    (hcolon : ∀ b, ':' ∉ (host.sha256Hex b).toList)
    (h : i.fingerprint host binary = j.fingerprint host binary') : i.bytes = j.bytes := by
  have hlist := congrArg String.toList h
  simp only [fingerprint, stdioExecFingerprint] at hlist
  rcases hi : binary i.command with _ | x
  · rcases hj : binary' j.command with _ | y
    · simp only [hi, hj, String.toList_append] at hlist
      exact hinj (String.toList_inj.1 (List.append_cancel_left hlist))
    · simp only [hi, hj, String.toList_append] at hlist
      exact absurd hlist (by simp)
  · rcases hj : binary' j.command with _ | y
    · simp only [hi, hj, String.toList_append] at hlist
      exact absurd hlist (by simp)
    · simp only [hi, hj, String.toList_append, List.append_assoc] at hlist
      have hcut := congrArg (Utf8.cut ':') (List.append_cancel_left hlist)
      rw [show ":".toList = [':'] by rfl, List.singleton_append, List.singleton_append,
        Utf8.cut_append (hcolon x), Utf8.cut_append (hcolon y), Prod.mk.injEq] at hcut
      exact hinj (String.toList_inj.1 hcut.2)

/-- After a grant, a spawn is allowed exactly with the fingerprint granted. -/
theorem evaluate_granted {e e' : ExtStore} {serverId id f f' : String} {t now : ℤ}
    (h : e.grantConsent serverId consentKindStdioExec f id t = .ok e') :
    e'.evaluate host now (.stdioSpawn serverId f') = .allow ↔ f' = f := by
  have hlookup : ∃ c : ConsentRow, e'.getConsent serverId consentKindStdioExec = some c ∧
      c.fingerprint = f := by
    simp only [ExtStore.grantConsent, Results.bind_eq_ok] at h
    obtain ⟨-, -, h⟩ := h
    split at h
    · rename_i c hc
      obtain rfl := Except.ok.inj h
      let x : ConsentRow := { c with fingerprint := f, grantedAt := t }
      have hkey : x.slot = (serverId, consentKindStdioExec) := by
        show c.slot = _
        exact KeyedTable.key_eq hc
      have hold : e.consents.lookup x.slot = some c := by
        rw [hkey]
        exact hc
      have hnew := KeyedTable.lookup_replace (k := (serverId, consentKindStdioExec)) hold
      exact ⟨x, hnew.trans (if_pos hkey.symm), rfl⟩
    · split at h
      · rename_i u hu
        obtain rfl := Except.ok.inj h
        exact ⟨_, (KeyedTable.lookup_insert hu).trans (if_pos rfl), rfl⟩
      · cases h
  obtain ⟨c, hc, hf⟩ := hlookup
  rw [ExtStore.evaluate, ExtStore.consentHolds, hc, Option.any_some, hf]
  by_cases hff : f' = f
  · simp [hff]
  · simp [hff, Ne.symm hff]

theorem fingerprint_of_bytes (hc : j.command = i.command) (h : j.bytes = i.bytes) :
    j.fingerprint host binary = i.fingerprint host binary := by
  unfold bytes at h
  rw [fingerprint, fingerprint, stdioExecFingerprint, stdioExecFingerprint, h, hc]

/-- A grant for an invocation of arbitrary strings is for its bytes, and these are another's
unless it is a command alone; a grant for one that can be spawned lets another be spawned unless
its environment is empty and its last argument holds no separator; and where no argument or key
holds one, a grant is for the one invocation. -/
theorem grant_commits_iff {e e' : ExtStore} {serverId id : String} {t now : ℤ}
    (hinj : Function.Injective host.sha256Hex) (hcolon : ∀ b, ':' ∉ (host.sha256Hex b).toList)
    (h : e.grantConsent serverId consentKindStdioExec (i.fingerprint host binary) id t = .ok e') :
    ((∀ j : StdioInvocation, j.bytes = i.bytes → j = i) ↔
      nul ∉ i.command.toList ∧ i.args = [] ∧ i.env = .empty) ∧
    (i.NulFree →
      ((∀ binary' (j : StdioInvocation), j.NulFree →
          e'.evaluate host now (.stdioSpawn serverId (j.fingerprint host binary')) = .allow →
          j = i) ↔
        i.env = .empty ∧ ∀ a ∈ i.args.getLast?, unitSep ∉ a.toList)) ∧
    (i.Separable → ∀ binary' (j : StdioInvocation), j.Separable →
      e'.evaluate host now (.stdioSpawn serverId (j.fingerprint host binary')) = .allow →
      j = i) := by
  refine ⟨i.bytes_alone_iff, fun hi => ?_, fun hi binary' j hj hallow => ?_⟩
  · rw [← hi.alone_iff]
    constructor
    · intro hall j hj hbytes
      refine hall binary j hj ((evaluate_granted h).2 ?_)
      exact fingerprint_of_bytes (hj.fields_eq hi hbytes).1 hbytes
    · intro hall binary' j hj hallow
      exact hall j hj (bytes_of_fingerprint hinj hcolon ((evaluate_granted h).1 hallow))
  · exact hj.eq_of_bytes hi
      (bytes_of_fingerprint hinj hcolon ((evaluate_granted h).1 hallow))

end Grants

/-! ### A grant for another's environment -/

/-- The variable as an argument, and as a variable. -/
def nodeArgs : StdioInvocation := ⟨"srv", ["NODE_OPTIONS\x01--require /tmp/b.js"], .empty⟩

def nodeEnv : StdioInvocation :=
  ⟨"srv", [], ⟨[("NODE_OPTIONS", "--require /tmp/b.js")], List.pairwise_singleton _ _⟩⟩

/-- A grant for the one is a grant for the other, whatever the hash and the binary. -/
theorem nodeArgs_collides : nodeArgs ≠ nodeEnv ∧ nodeArgs.bytes = nodeEnv.bytes ∧
    ∀ host binary, nodeArgs.fingerprint host binary = nodeEnv.fingerprint host binary := by
  have harg : nodeArgs
      = asArg "srv" [] "NODE_OPTIONS" "--require /tmp/b.js" (envTail nodeEnv.env) := by decide
  have hbytes : nodeArgs.bytes = nodeEnv.bytes := by
    rw [harg, bytes_asArg rfl]
    rfl
  exact ⟨by decide, hbytes, fun host binary => fingerprint_of_bytes rfl hbytes⟩

/-- A text of letters past the bytes, one for each. -/
def lettersOf (bs : List UInt8) : String :=
  String.ofList (bs.map fun b => Char.ofNat (b.toNat + 256))

theorem lettersOf_toNat (b : UInt8) : (Char.ofNat (b.toNat + 256)).toNat = b.toNat + 256 := by
  have hb := b.toNat_lt
  have hvalid : (b.toNat + 256).isValidChar := .inl (by omega)
  rw [Char.ofNat, dif_pos hvalid]
  rfl

theorem lettersOf_injective : Function.Injective lettersOf := by
  intro bs bs' h
  refine List.map_injective_iff.2 (fun b b' hb => ?_) (String.ofList_injective h)
  have hn := congrArg Char.toNat hb
  rw [lettersOf_toNat, lettersOf_toNat] at hn
  exact UInt8.toNat_inj.1 (by omega)

theorem colon_not_mem_lettersOf (bs : List UInt8) : ':' ∉ (lettersOf bs).toList := by
  rw [lettersOf, String.toList_ofList, List.mem_map]
  rintro ⟨b, -, hb⟩
  have hn := congrArg Char.toNat hb
  rw [lettersOf_toNat, show ':'.toNat = 58 by rfl] at hn
  omega

def lettersHost : ExtHost := ⟨lettersOf, fun _ => .finite 0, fun _ => false⟩

/-- A store with the one stdio server "s". -/
def oneServer : ExtStore :=
  { ExtStore.empty with servers := ⟨[⟨⟨"srv", .stdio, none, some "srv", [], .empty, .global, none,
    .none, none, none, true, 1000, 0⟩, "s", none, 0, 0⟩], by simp⟩ }

def noBinary : String → Option (List UInt8) := fun _ => none

theorem grant_commits_iff_srv : ∃ e' : ExtStore,
    oneServer.grantConsent "s" consentKindStdioExec (nodeArgs.fingerprint lettersHost noBinary)
      "g" 1 = .ok e' ∧
    (nodeArgs.NulFree →
      ((∀ binary' (j : StdioInvocation), j.NulFree →
          e'.evaluate lettersHost 2 (.stdioSpawn "s" (j.fingerprint lettersHost binary')) = .allow →
          j = nodeArgs) ↔
        nodeArgs.env = .empty ∧ ∀ a ∈ nodeArgs.args.getLast?, unitSep ∉ a.toList)) := by
  refine ⟨_, rfl, ?_⟩
  have h : oneServer.grantConsent "s" consentKindStdioExec
      (nodeArgs.fingerprint lettersHost noBinary) "g" 1 = .ok _ := rfl
  exact (grant_commits_iff lettersOf_injective colon_not_mem_lettersOf h).2.1

end StdioInvocation

end BuilderPro
