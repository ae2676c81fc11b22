import Hammertime.Codec.Interpreter
import Hammertime.Ingest.Auth

/-!
# The source key behind trusted proxies

`_resolve_source_address` and `_source_bucket_key` of `hammertime.ingest.auth.middleware`. The lines of
`X-Forwarded-For` are joined, split at the commas, stripped and filtered, and the entry that many
positions from the right is taken. The entries of the joined lines are those of the lines one after
the other (`headerEntries_lines`), so that whatever a client puts before them, the entries that the
trusted proxies append are the last ones. What the key of an IPv6 address leaves out is its host bits,
and with them its scope id; but an address without host bits keeps its scope id in the key.
-/

namespace Hammertime.Ingest

open Lib

/-! ### The entries of the header -/

/-- The entries of a text: what the commas separate, stripped, without the blank ones. -/
def headerEntries (text : List Char) : List (List Char) :=
  ((text.splitOn ',').map strip).filter (· ≠ [])

/-- The entries of one line. -/
def lineEntries (line : String) : List (List Char) := headerEntries line.toList

theorem strip_cons {c : Char} {text : List Char} (h : isSpace c = true) :
    strip (c :: text) = strip text := by
  unfold strip
  rw [List.dropWhile_cons_of_pos h]

/-- A comma ends an entry. -/
theorem headerEntries_append (text rest : List Char) :
    headerEntries (text ++ ',' :: rest) = headerEntries text ++ headerEntries rest := by
  unfold headerEntries
  rw [List.splitOn_append_cons_self, List.map_append, List.filter_append]

/-- Blanks before an entry are not part of it. -/
theorem headerEntries_blanks {blanks : List Char} (h : ∀ c ∈ blanks, isSpace c = true)
    (text : List Char) : headerEntries (blanks ++ text) = headerEntries text := by
  induction blanks with
  | nil => rfl
  | cons c blanks ih =>
    have hblank := h c List.mem_cons_self
    have hcomma : (c == ',') = false := by
      rw [beq_eq_false_iff_ne]
      rintro rfl
      exact absurd hblank (by decide)
    rw [← ih fun c' hc' => h c' (List.mem_cons_of_mem _ hc')]
    unfold headerEntries
    rw [List.cons_append, List.splitOn_cons_eq_if_modifyHead, if_neg (by rw [hcomma]; decide)]
    cases hsplit : (blanks ++ text).splitOn ',' with
    | nil => exact absurd hsplit (List.splitOn_ne_nil _ _)
    | cons first others =>
      rw [List.modifyHead_cons, List.map_cons, strip_cons hblank, List.map_cons]

/-- The entries of the joined lines are the entries of the lines. -/
theorem headerEntries_lines (lines : List String) :
    headerEntries (", ".intercalate lines).toList = lines.flatMap lineEntries := by
  induction lines with
  | nil => rfl
  | cons line rest ih =>
    cases rest with
    | nil =>
      rw [String.intercalate_singleton, List.flatMap_singleton]
      rfl
    | cons next rest =>
      have hjoined : (", ".intercalate (line :: next :: rest)).toList =
          line.toList ++ ',' :: ([' '] ++ (", ".intercalate (next :: rest)).toList) := by
        rw [String.intercalate_cons_cons, String.toList_append, String.toList_append,
          List.append_assoc]
        rfl
      have hblank : ∀ c ∈ [' '], isSpace c = true := by
        intro c hc
        rw [List.mem_singleton.mp hc]
        rfl
      rw [hjoined, headerEntries_append, headerEntries_blanks hblank, ih, List.flatMap_cons]
      rfl

/-! ### What the proxies append -/

/-- What a proxy appends: a text without a comma that is not blank. -/
structure ForwardedEntry where
  text : List Char
  free : ',' ∉ text
  nonBlank : strip text ≠ []

/-- The entry as `_resolve_source_address` reads it. -/
def ForwardedEntry.stripped (entry : ForwardedEntry) : List Char := strip entry.text

theorem ForwardedEntry.headerEntries_text (entry : ForwardedEntry) :
    headerEntries entry.text = [entry.stripped] := by
  unfold headerEntries
  rw [List.splitOn_eq_singleton entry.free, List.map_singleton,
    List.filter_cons_of_pos (by simpa using entry.nonBlank), List.filter_nil]
  rfl

/-- The lines that a request arrives with when each proxy has appended its entry to those of the
client, after a comma on the last line or on a line of its own. -/
inductive Appended (lines : List String) : List ForwardedEntry → List String → Prop
  | none : Appended lines [] lines
  | ownLine {entries : List ForwardedEntry} {out : List String} (entry : ForwardedEntry) :
    Appended lines entries out →
    Appended lines (entries ++ [entry]) (out ++ [String.ofList entry.text])
  | lastLine {entries : List ForwardedEntry} {out : List String} {last : String}
      {blanks : List Char} (hblanks : ∀ c ∈ blanks, isSpace c = true) (entry : ForwardedEntry) :
    Appended lines entries (out ++ [last]) →
    Appended lines (entries ++ [entry])
      (out ++ [String.ofList (last.toList ++ ',' :: (blanks ++ entry.text))])

/-- Whatever the client sent comes before what the proxies append. -/
theorem Appended.flatMap_lineEntries {lines out : List String} {entries : List ForwardedEntry}
    (h : Appended lines entries out) :
    out.flatMap lineEntries =
      lines.flatMap lineEntries ++ entries.map ForwardedEntry.stripped := by
  induction h with
  | none => rw [List.map_nil, List.append_nil]
  | ownLine entry _ ih =>
    have hline : lineEntries (String.ofList entry.text) = [entry.stripped] := by
      unfold lineEntries
      rw [String.toList_ofList, entry.headerEntries_text]
    rw [List.flatMap_append, ih, List.map_append, List.flatMap_singleton, hline,
      List.append_assoc]
    rfl
  | @lastLine entries out last blanks hblanks entry _ ih =>
    have hline : lineEntries (String.ofList (last.toList ++ ',' :: (blanks ++ entry.text))) =
        lineEntries last ++ [entry.stripped] := by
      unfold lineEntries
      rw [String.toList_ofList, headerEntries_append, headerEntries_blanks hblanks,
        entry.headerEntries_text]
    rw [List.flatMap_append, List.flatMap_singleton] at ih ⊢
    rw [hline, ← List.append_assoc, ih, List.map_append, List.append_assoc]
    rfl

/-! ### The address -/

section Address

variable (primitives : Primitives)

/-- The address is the entry so many positions from the right, if it parses, and else the peer's. -/
theorem resolveSourceAddress_of_entry {hops : ℕ} {request : Request} {entry : List Char}
    (hhops : 1 ≤ hops)
    (h : (request.forwardedFor.flatMap lineEntries).reverse[hops - 1]? = some entry) :
    resolveSourceAddress primitives hops request =
      if (primitives.ipAddress (String.ofList entry)).isSome then String.ofList entry
      else request.client.getD "unknown" := by
  have hentry : (headerEntries (", ".intercalate request.forwardedFor).toList).reverse[hops - 1]? =
      some entry := by
    rw [headerEntries_lines]
    exact h
  unfold headerEntries at hentry
  unfold resolveSourceAddress
  dsimp only
  rw [if_neg (by omega), hentry, Option.map_some]
  by_cases hparse : (primitives.ipAddress (String.ofList entry)).isSome
  · simp only [Option.filter, hparse, if_true]
  · simp only [Option.filter, hparse]
    rfl

/-- Behind as many proxies as there are hops, the address is what the first of them appended. -/
theorem resolveSourceAddress_of_appended {lines out : List String} {first : ForwardedEntry}
    {others : List ForwardedEntry} (h : Appended lines (first :: others) out) {request : Request}
    (hout : request.forwardedFor = out) :
    resolveSourceAddress primitives (first :: others).length request =
      if (primitives.ipAddress (String.ofList first.stripped)).isSome then
        String.ofList first.stripped
      else request.client.getD "unknown" := by
  have hindex : (first :: others).length - 1 =
      (others.map ForwardedEntry.stripped).reverse.length := by
    rw [List.length_reverse, List.length_map, List.length_cons, Nat.add_sub_cancel]
  have hentry : (request.forwardedFor.flatMap lineEntries).reverse[(first :: others).length - 1]? =
      some first.stripped := by
    rw [hout, h.flatMap_lineEntries, List.map_cons, List.reverse_append, List.reverse_cons,
      List.append_assoc, hindex, List.getElem?_append_right le_rfl, Nat.sub_self]
    rfl
  exact resolveSourceAddress_of_entry primitives (Nat.succ_pos _) hentry

/-- The address that the trusted proxies vouch for: what the first of them appended, if that is an
address, and else the socket's peer. -/
def trustedAddress (client : Option String) : List ForwardedEntry → String
  | [] => client.getD "unknown"
  | first :: _ =>
    if (primitives.ipAddress (String.ofList first.stripped)).isSome then String.ofList first.stripped
    else client.getD "unknown"

/-- The key that a failing request is charged to. -/
def sourceKey (hops : ℕ) (request : Request) : String :=
  sourceBucketKey primitives (resolveSourceAddress primitives hops request)

/-- The key is that of the address that the trusted proxies vouch for, whatever the client sent. -/
theorem sourceKey_of_appended {lines : List String} {entries : List ForwardedEntry}
    {request : Request} (h : Appended lines entries request.forwardedFor) :
    sourceKey primitives entries.length request =
      sourceBucketKey primitives (trustedAddress primitives request.client entries) := by
  unfold sourceKey
  cases entries with
  | nil => rfl
  | cons first others => rw [resolveSourceAddress_of_appended primitives h rfl, trustedAddress]

end Address

/-! ### The key of an address -/

/-- The IPv4 address that an address stands for: itself, or the one that is mapped into it. -/
def embedded (address : Address) : Option ℕ :=
  match address.family with
  | .ipv4 => some address.value
  | .ipv6 => if address.value / 2 ^ 32 = 0xffff then some (address.value % 2 ^ 32) else none

/-- Two addresses count as one source: they stand for the same IPv4 address, or they stand for none
and agree in their first 64 bits. -/
def SameSource (a a' : Address) : Prop :=
  (∃ v, embedded a = some v ∧ embedded a' = some v) ∨
    embedded a = none ∧ embedded a' = none ∧ a.value / 2 ^ 64 = a'.value / 2 ^ 64

section Key

variable {primitives : Primitives} {text text' : String} {ip ip' : IpAddress}

/-- Texts with endings of one length agree in both parts. -/
theorem suffixed_inj {s s' e e' : String} (hlength : e.toList.length = e'.toList.length)
    (h : s ++ e = s' ++ e') : s = s' ∧ e = e' := by
  have hlist := congrArg String.toList h
  rw [String.toList_append, String.toList_append] at hlist
  obtain ⟨hs, he⟩ := List.append_inj' hlist hlength
  exact ⟨String.toList_inj.mp hs, String.toList_inj.mp he⟩

theorem suffix_ne (s s' : String) : s ++ "/32" ≠ s' ++ "/64" := by
  intro h
  obtain ⟨-, hsuffix⟩ := suffixed_inj (by decide) h
  exact absurd hsuffix (by decide)

theorem sourceBucketKey_of_embedded (htext : primitives.ipAddress text = some ip) {v : ℕ}
    (h : embedded ip.address = some v) : ∃ hv : v < 2 ^ AddressFamily.ipv4.bitLength,
      sourceBucketKey primitives text = primitives.addressText (.plain ⟨.ipv4, v, hv⟩) ++ "/32" := by
  obtain ⟨⟨family, value, hvalue⟩, scopeId, hunscoped⟩ := ip
  unfold sourceBucketKey
  rw [htext]
  unfold embedded at h
  cases family with
  | ipv4 =>
    cases h
    refine ⟨hvalue, ?_⟩
    have hnone : scopeId = none := hunscoped rfl
    subst hnone
    rfl
  | ipv6 =>
    dsimp only at h ⊢
    by_cases hmapped : value / 2 ^ 32 = 0xffff
    · rw [if_pos hmapped] at h ⊢
      cases h
      exact ⟨Nat.mod_lt _ (by decide), rfl⟩
    · rw [if_neg hmapped] at h
      cases h

/-- What stands for no IPv4 address is an IPv6 address, and keyed by its network. -/
theorem sourceBucketKey_of_not_embedded (htext : primitives.ipAddress text = some ip)
    (h : embedded ip.address = none) :
    ip.address.family = .ipv6 ∧
      sourceBucketKey primitives text = primitives.addressText ip.network ++ "/64" := by
  unfold sourceBucketKey
  rw [htext]
  unfold embedded at h
  cases hfamily : ip.address.family with
  | ipv4 =>
    rw [hfamily] at h
    cases h
  | ipv6 =>
    simp only [hfamily] at h
    by_cases hmapped : ip.address.value / 2 ^ 32 = 0xffff
    · rw [if_pos hmapped] at h
      cases h
    · refine ⟨rfl, ?_⟩
      simp only [hfamily]
      exact if_neg hmapped

/-! ### The network of an address -/

/-- The scope id that the network of an address keeps: that of an address without host bits. -/
def keptScope (ip : IpAddress) : Option ScopeId :=
  if ip.address.value % 2 ^ 64 = 0 then ip.scopeId else none

theorem network_scopeId (ip : IpAddress) : ip.network.scopeId = keptScope ip := by
  unfold IpAddress.network keptScope
  split_ifs <;> rfl

theorem network_family (h : ip.address.family = .ipv6) : ip.network.address.family = .ipv6 := by
  unfold IpAddress.network
  split_ifs
  · exact h
  · rfl

theorem network_value (h : ip.address.family = .ipv6) :
    ip.network.address.value = ip.address.value / 2 ^ 64 * 2 ^ 64 := by
  have hlt : ip.address.value < 2 ^ 128 := by
    have hrange := ip.address.inRange
    rw [h] at hrange
    exact hrange
  unfold IpAddress.network
  split_ifs with hzero
  · omega
  · exact Nat.mod_eq_of_lt (by omega)

/-- Two networks are one exactly if they agree in the first 64 bits and in the scope id they keep. -/
theorem network_eq_iff (h : ip.address.family = .ipv6) (h' : ip'.address.family = .ipv6) :
    ip.network = ip'.network ↔ ip.address.value / 2 ^ 64 = ip'.address.value / 2 ^ 64 ∧
      keptScope ip = keptScope ip' := by
  constructor
  · intro heq
    have hvalue := congrArg (fun other => other.address.value) heq
    rw [network_value h, network_value h'] at hvalue
    have hscope := congrArg IpAddress.scopeId heq
    rw [network_scopeId, network_scopeId] at hscope
    exact ⟨by omega, hscope⟩
  · rintro ⟨hvalue, hscope⟩
    refine IpAddress.ext (Address.ext ?_ ?_) ?_
    · rw [network_family h, network_family h']
    · rw [network_value h, network_value h', hvalue]
    · rw [network_scopeId, network_scopeId, hscope]

/-- Keys are equal exactly for one source with one scope id kept, with texts that parse back to their
addresses. -/
theorem sourceBucketKey_eq_iff
    (hparse : ∀ ip, primitives.ipAddress (primitives.addressText ip) = some ip)
    (htext : primitives.ipAddress text = some ip) (htext' : primitives.ipAddress text' = some ip') :
    sourceBucketKey primitives text = sourceBucketKey primitives text' ↔
      SameSource ip.address ip'.address ∧
        (embedded ip.address = none → keptScope ip = keptScope ip') := by
  have hinj : Function.Injective primitives.addressText := by
    intro ip ip' h
    have heq := hparse ip
    rw [h, hparse ip'] at heq
    exact (Option.some.inj heq).symm
  unfold SameSource
  cases hv : embedded ip.address with
  | some v =>
    obtain ⟨hlt, hkey⟩ := sourceBucketKey_of_embedded htext hv
    cases hv' : embedded ip'.address with
    | some v' =>
      obtain ⟨hlt', hkey'⟩ := sourceBucketKey_of_embedded htext' hv'
      rw [hkey, hkey']
      constructor
      · intro h
        have haddress := hinj (suffixed_inj rfl h).1
        have hvalue : v = v' := congrArg (fun other => other.address.value) haddress
        rw [hvalue]
        exact ⟨.inl ⟨v', rfl, rfl⟩, fun hnone => by cases hnone⟩
      · rintro ⟨⟨u, hu, hu'⟩ | ⟨hnone, -, -⟩, -⟩
        · cases hu
          cases hu'
          rfl
        · cases hnone
    | none =>
      obtain ⟨-, hkey'⟩ := sourceBucketKey_of_not_embedded htext' hv'
      rw [hkey, hkey']
      refine iff_of_false (suffix_ne _ _) ?_
      rintro ⟨⟨u, -, hu'⟩ | ⟨hnone, -, -⟩, -⟩
      · cases hu'
      · cases hnone
  | none =>
    obtain ⟨hfamily, hkey⟩ := sourceBucketKey_of_not_embedded htext hv
    cases hv' : embedded ip'.address with
    | some v' =>
      obtain ⟨hlt', hkey'⟩ := sourceBucketKey_of_embedded htext' hv'
      rw [hkey, hkey']
      refine iff_of_false (suffix_ne _ _).symm ?_
      rintro ⟨⟨u, hu, -⟩ | ⟨-, hnone, -⟩, -⟩
      · cases hu
      · cases hnone
    | none =>
      obtain ⟨hfamily', hkey'⟩ := sourceBucketKey_of_not_embedded htext' hv'
      rw [hkey, hkey']
      constructor
      · intro h
        obtain ⟨hvalue, hscope⟩ :=
          (network_eq_iff hfamily hfamily').mp (hinj (suffixed_inj rfl h).1)
        exact ⟨.inr ⟨rfl, rfl, hvalue⟩, fun _ => hscope⟩
      · rintro ⟨⟨u, hu, -⟩ | ⟨-, -, hvalue⟩, hscope⟩
        · cases hu
        · rw [(network_eq_iff hfamily hfamily').mpr ⟨hvalue, hscope rfl⟩]

end Key

/-- The source key cannot be forged past the trusted proxies. Behind as many proxies as there are
hops, each of which appends an entry, it is the key of what the first of them appended, or of the
socket's peer if that is no address, and so the same as if the client had sent no header; without any
it depends on the peer alone. The keys of two addresses are equal exactly if they are the same IPv4
address, also as one mapped into IPv6, or IPv6 addresses of one /64, except for two in one /64 of
which an address without host bits keeps another scope id. -/
theorem source_key_unforgeable (primitives : Primitives) :
    (∀ (hops : ℕ) (lines : List String) (entries : List ForwardedEntry) (request : Request),
      entries.length = hops → Appended lines entries request.forwardedFor →
      sourceKey primitives hops request =
        sourceBucketKey primitives (trustedAddress primitives request.client entries)) ∧
    (∀ (hops : ℕ) (lines : List String) (entries : List ForwardedEntry) (request request' : Request),
      1 ≤ hops → entries.length = hops → request.client = request'.client →
      Appended lines entries request.forwardedFor → Appended [] entries request'.forwardedFor →
      sourceKey primitives hops request = sourceKey primitives hops request') ∧
    (∀ request request' : Request, request.client = request'.client →
      sourceKey primitives 0 request = sourceKey primitives 0 request') ∧
    ((∀ ip, primitives.ipAddress (primitives.addressText ip) = some ip) →
      ∀ text text' ip ip', primitives.ipAddress text = some ip →
        primitives.ipAddress text' = some ip' →
        ((sourceBucketKey primitives text = sourceBucketKey primitives text' ↔
            SameSource ip.address ip'.address) ↔
          (embedded ip.address = none → embedded ip'.address = none →
            ip.address.value / 2 ^ 64 = ip'.address.value / 2 ^ 64 →
            keptScope ip = keptScope ip'))) := by
  refine ⟨?_, ?_, fun request request' hclient => ?_, ?_⟩
  · rintro hops lines entries request rfl h
    exact sourceKey_of_appended primitives h
  · rintro hops lines entries request request' - rfl hclient h h'
    rw [sourceKey_of_appended primitives h, sourceKey_of_appended primitives h', hclient]
  · have hkey : ∀ other : Request, sourceKey primitives 0 other =
        sourceBucketKey primitives (trustedAddress primitives other.client []) :=
      fun other => sourceKey_of_appended primitives .none
    rw [hkey, hkey, hclient]
  · intro hparse text text' ip ip' htext htext'
    rw [sourceBucketKey_eq_iff hparse htext htext']
    constructor
    · intro h hnone hnone' hvalue
      exact (h.mpr (.inr ⟨hnone, hnone', hvalue⟩)).2 hnone
    · intro hkept
      refine ⟨And.left, fun hsame => ⟨hsame, fun hnone => ?_⟩⟩
      obtain ⟨v, hv, -⟩ | ⟨-, hnone', hvalue⟩ := hsame
      · rw [hnone] at hv
        cases hv
      · exact hkept hnone hnone' hvalue

/-! ### A library -/

/-- 2001:db8::. -/
def documentation : Address := ⟨.ipv6, 0x20010db8 * 2 ^ 96, by decide⟩

/-- The text of an address, as `ipaddress` writes the IPv4 ones and that one. -/
def writtenAddress (address : Address) : String :=
  if address = documentation then "2001:db8::" else Codec.addressText address

/-- The text of an address with its scope id. -/
def writtenIp (ip : IpAddress) : String :=
  match ip.scopeId with
  | none => writtenAddress ip.address
  | some scopeId => writtenAddress ip.address ++ "%" ++ scopeId.text

theorem mem_addressText {address : Address} {c : Char}
    (h : c ∈ (Codec.addressText address).toList) : c.isDigit = true ∨ c = '.' ∨ c = ':' := by
  obtain ⟨family, value, hvalue⟩ := address
  cases family with
  | ipv4 =>
    simp only [Codec.addressText, String.toList_ofList, List.mem_append, List.mem_cons] at h
    obtain h | rfl | h | rfl | h | rfl | h := h
    · exact .inl (Codec.isDigit_of_mem_padded h)
    · exact .inr (.inl rfl)
    · exact .inl (Codec.isDigit_of_mem_padded h)
    · exact .inr (.inl rfl)
    · exact .inl (Codec.isDigit_of_mem_padded h)
    · exact .inr (.inl rfl)
    · exact .inl (Codec.isDigit_of_mem_padded h)
  | ipv6 =>
    simp only [Codec.addressText, String.toList_ofList, List.mem_cons] at h
    obtain rfl | rfl | h := h
    · exact .inr (.inr rfl)
    · exact .inr (.inr rfl)
    · exact .inl (Codec.isDigit_of_mem_padded h)

theorem not_mem_addressText {c : Char} (hdigit : c.isDigit = false) (hdot : c ≠ '.') (hcolon : c ≠ ':')
    (address : Address) : c ∉ (Codec.addressText address).toList := by
  intro h
  obtain h | h | h := mem_addressText h
  · rw [hdigit] at h
    cases h
  · exact hdot h
  · exact hcolon h

theorem not_mem_writtenAddress (address : Address) : '%' ∉ (writtenAddress address).toList := by
  unfold writtenAddress
  split_ifs
  · decide
  · exact not_mem_addressText rfl (by decide) (by decide) address

theorem writtenAddress_injective : Function.Injective writtenAddress := by
  have hother : ∀ address, "2001:db8::" ≠ Codec.addressText address := by
    intro address h
    refine not_mem_addressText (c := 'd') rfl (by decide) (by decide) address ?_
    rw [← h]
    decide
  intro address address' h
  unfold writtenAddress at h
  split_ifs at h with hdoc hdoc' hdoc'
  · rw [hdoc, hdoc']
  · exact absurd h (hother address')
  · exact absurd h.symm (hother address)
  · exact Codec.addressText_injective h

/-- The first `%` of a text ends the address. -/
theorem writtenIp_injective : Function.Injective writtenIp := by
  have hmem : ∀ (address : Address) (scopeId : ScopeId),
      '%' ∈ (writtenAddress address ++ "%" ++ scopeId.text).toList := by
    intro address scopeId
    simp
  rintro ⟨address, scopeId, hunscoped⟩ ⟨address', scopeId', hunscoped'⟩ h
  cases scopeId with
  | none =>
    cases scopeId' with
    | none => exact IpAddress.ext (writtenAddress_injective h) rfl
    | some scopeId' =>
      have h : writtenAddress address = writtenAddress address' ++ "%" ++ scopeId'.text := h
      exact absurd (h ▸ hmem address' scopeId') (not_mem_writtenAddress address)
  | some scopeId =>
    cases scopeId' with
    | none =>
      have h : writtenAddress address ++ "%" ++ scopeId.text = writtenAddress address' := h
      exact absurd (h ▸ hmem address scopeId) (not_mem_writtenAddress address')
    | some scopeId' =>
      have h := congrArg String.toList (show writtenAddress address ++ "%" ++ scopeId.text =
        writtenAddress address' ++ "%" ++ scopeId'.text from h)
      simp only [String.toList_append, List.append_assoc] at h
      obtain ⟨haddress, hscope⟩ := Hammertime.separated_inj (not_mem_writtenAddress address)
        (not_mem_writtenAddress address') h
      refine IpAddress.ext (writtenAddress_injective (String.toList_inj.mp haddress)) ?_
      exact congrArg some (ScopeId.ext (String.toList_inj.mp hscope))

/-- The library, as far as addresses are concerned. -/
noncomputable def addressPrimitives : Primitives where
  hashToken _ := []
  slotDigest _ := 0
  ipAddress text := Codec.textInverse writtenIp (Text.ofString text)
  addressText := writtenIp

theorem ipAddress_writtenIp (ip : IpAddress) :
    addressPrimitives.ipAddress (writtenIp ip) = some ip :=
  Codec.textInverse_apply writtenIp_injective ip

/-- An IPv4 address is written as its four bytes. -/
theorem ipAddress_ipv4 {value : ℕ} (hvalue : value < 2 ^ AddressFamily.ipv4.bitLength) {text : String}
    (htext : Codec.addressText ⟨.ipv4, value, hvalue⟩ = text) :
    addressPrimitives.ipAddress text = some (.plain ⟨.ipv4, value, hvalue⟩) := by
  have hne : (⟨.ipv4, value, hvalue⟩ : Address) ≠ documentation := by
    intro h
    cases congrArg Address.family h
  have hwritten : writtenIp (.plain ⟨.ipv4, value, hvalue⟩) = text := by
    show writtenAddress ⟨.ipv4, value, hvalue⟩ = text
    unfold writtenAddress
    rw [if_neg hne]
    exact htext
  rw [← hwritten]
  exact ipAddress_writtenIp _

/-- 2001:db8:: with the scope id 1. -/
def scopedDocumentation : IpAddress :=
  ⟨documentation, some ⟨"1", by decide, by decide⟩, fun h => by cases h⟩

/-- A forged line before that of the proxy changes nothing, and the key is that of the proxy's entry.
The keys of two hosts differ. -/
theorem source_key_unforgeable_forged :
    sourceKey addressPrimitives 1
        { anonymousRequest 0 with forwardedFor := ["192.0.2.7, ,", "10.0.0.1"] } =
      sourceKey addressPrimitives 1 { anonymousRequest 0 with forwardedFor := ["10.0.0.1"] } ∧
    sourceKey addressPrimitives 1
        { anonymousRequest 0 with forwardedFor := ["192.0.2.7, ,", "10.0.0.1"] } =
      sourceBucketKey addressPrimitives "10.0.0.1" ∧
    sourceBucketKey addressPrimitives "10.0.0.1" ≠ sourceBucketKey addressPrimitives "10.0.0.2" := by
  obtain ⟨hentry, hforged, -, hkeys⟩ := source_key_unforgeable addressPrimitives
  let entry : ForwardedEntry := ⟨"10.0.0.1".toList, by decide, by decide⟩
  have hfirst : addressPrimitives.ipAddress "10.0.0.1" =
      some (.plain ⟨.ipv4, 0x0a000001, by decide⟩) := ipAddress_ipv4 _ rfl
  have hsecond : addressPrimitives.ipAddress "10.0.0.2" =
      some (.plain ⟨.ipv4, 0x0a000002, by decide⟩) := ipAddress_ipv4 _ rfl
  refine ⟨?_, ?_, fun h => ?_⟩
  · exact hforged 1 ["192.0.2.7, ,"] [entry] _ _ le_rfl rfl rfl (.ownLine entry .none)
      (.ownLine entry .none)
  · have hkey := hentry 1 ["192.0.2.7, ,"] [entry]
      { anonymousRequest 0 with forwardedFor := ["192.0.2.7, ,", "10.0.0.1"] } rfl
      (.ownLine entry .none)
    have htrusted : trustedAddress addressPrimitives (some "127.0.0.1") [entry] = "10.0.0.1" :=
      if_pos (by rw [show String.ofList entry.stripped = "10.0.0.1" from rfl, hfirst]; rfl)
    rw [hkey]
    exact congrArg _ htrusted
  · have hsame := ((hkeys ipAddress_writtenIp _ _ _ _ hfirst hsecond).mpr
      fun hnone => by cases hnone).mp h
    rcases hsame with ⟨v, hv, hv'⟩ | ⟨hnone, -, -⟩
    · cases hv
      cases hv'
    · cases hnone

/-- Of two spellings of one address the one with a scope id has a key of its own. -/
theorem scope_id_splits_a_network : ∃ ip ip',
    addressPrimitives.ipAddress "2001:db8::%1" = some ip ∧
    addressPrimitives.ipAddress "2001:db8::" = some ip' ∧ SameSource ip.address ip'.address ∧
    sourceBucketKey addressPrimitives "2001:db8::%1" = "2001:db8::%1/64" ∧
    sourceBucketKey addressPrimitives "2001:db8::" = "2001:db8::/64" := by
  have hscoped : addressPrimitives.ipAddress "2001:db8::%1" = some scopedDocumentation :=
    ipAddress_writtenIp scopedDocumentation
  have hplain : addressPrimitives.ipAddress "2001:db8::" = some (.plain documentation) :=
    ipAddress_writtenIp (.plain documentation)
  have hunmapped : documentation.value / 2 ^ 32 ≠ 0xffff := by decide
  have hnone : embedded documentation = none := by
    show (if documentation.value / 2 ^ 32 = 0xffff then some (documentation.value % 2 ^ 32)
      else none) = none
    exact if_neg hunmapped
  have hwritten : writtenAddress documentation = "2001:db8::" := if_pos rfl
  have hhost : documentation.value % 2 ^ 64 = 0 := by decide
  refine ⟨_, _, hscoped, hplain, .inr ⟨hnone, hnone, rfl⟩, ?_, ?_⟩
  · rw [(sourceBucketKey_of_not_embedded hscoped hnone).2,
      show scopedDocumentation.network = scopedDocumentation from if_pos hhost]
    show writtenAddress documentation ++ "%" ++ "1" ++ "/64" = "2001:db8::%1/64"
    rw [hwritten]
    rfl
  · rw [(sourceBucketKey_of_not_embedded hplain hnone).2,
      show (IpAddress.plain documentation).network = .plain documentation from if_pos hhost]
    show writtenAddress documentation ++ "/64" = "2001:db8::/64"
    rw [hwritten]
    rfl

end Hammertime.Ingest
