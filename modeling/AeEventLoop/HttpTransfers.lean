import AeEventLoop.HttpClient
import Mathlib.Data.Finset.Card
import Mathlib.Data.Multiset.Range
import Mathlib.Data.Multiset.ZeroCons

/-! Every HTTP transfer is reported once, with all that was received for it, and its objects are freed
once. A socket event leaves no finished transfer behind. -/

namespace AeEventLoop.HttpClient

open Resources

/-- An easy handle and the `CConnInfo` it is for. -/
structure Linked (m : Http) (e c : ℕ) : Prop where
  priv : (m.easy e).PRIVATE = some c
  writes : (m.easy e).WRITEDATA = some c
  handle : (m.conn c).GetCurlHandle = some e

/-- The objects in use are those of the handles `owned`. -/
structure Objects (m : Http) (owned : Finset ℕ) : Prop where
  easies : m.easies = ⟨owned, false⟩
  conns : m.conns.misused = false
  slists : m.slists.misused = false
  owner : ∀ e ∈ owned, ∃ c ∈ m.conns.held, Linked m e c
  owns : ∀ c ∈ m.conns.held, ∃ e ∈ owned, Linked m e c
  headers : ∀ h, h ∈ m.slists.held ↔ ∃ c ∈ m.conns.held, (m.conn c).m_header = some h
  apart : ∀ c ∈ m.conns.held, ∀ c' ∈ m.conns.held, ∀ h, (m.conn c).m_header = some h →
    (m.conn c').m_header = some h → c = c'

def Known (m : Http) (e : ℕ) : Prop :=
  ∀ c, (m.easy e).PRIVATE = some c → m.asked[m.number e]? = some (m.conn c).m_strUrl ∧
    (m.conn c).m_strResp = m.body (m.number e)

/-- The state between two callbacks of libcurl; the objects of `loose` are still to be freed. -/
structure Inv (m : Http) (loose : Finset ℕ) : Prop where
  queue : m.curlm.alive.val + ↑m.curlm.msglist = (↑m.curlm.easyp : Multiset ℕ)
  nodup : m.curlm.easyp.Nodup
  apart : Disjoint m.curlm.easyp.toFinset loose
  count : m.curlm.num_alive = m.curlm.alive.card
  objects : Objects m (m.curlm.easyp.toFinset ∪ loose)
  numbers : (m.log.map Report.no ++ m.curlm.easyp.map m.number).Perm (List.range m.asked.length)
  known : ∀ e ∈ m.curlm.easyp, Known m e
  logged : ∀ r ∈ m.log, m.asked[r.no]? = some r.url ∧ r.resp = m.body r.no
  later : ∀ i, m.asked.length ≤ i → m.body i = []
  fine : m.fault = false

section Objects

variable {m n : Http} {owned : Finset ℕ} {e e' c c' : ℕ}

theorem Linked.same_handle (link : Linked m e c) (link' : Linked m e' c) : e = e' :=
  Option.some.inj (link.handle.symm.trans link'.handle)

theorem Linked.same_conn (link : Linked m e c) (link' : Linked m e c') : c = c' :=
  Option.some.inj (link.priv.symm.trans link'.priv)

theorem Objects.congr (objects : Objects m owned) (easies : n.easies = m.easies)
    (conns : n.conns = m.conns) (slists : n.slists = m.slists) (easy : n.easy = m.easy)
    (handle : ∀ c, (n.conn c).GetCurlHandle = (m.conn c).GetCurlHandle)
    (header : ∀ c, (n.conn c).m_header = (m.conn c).m_header) : Objects n owned := by
  have link : ∀ e c, Linked n e c ↔ Linked m e c := fun e c =>
    ⟨fun h => ⟨easy ▸ h.priv, easy ▸ h.writes, handle c ▸ h.handle⟩,
      fun h => ⟨easy ▸ h.priv, easy ▸ h.writes, (handle c).trans h.handle⟩⟩
  constructor
  · rw [easies, objects.easies]
  · rw [conns, objects.conns]
  · rw [slists, objects.slists]
  · intro e own
    obtain ⟨c, held, linked⟩ := objects.owner e own
    exact ⟨c, conns ▸ held, (link e c).mpr linked⟩
  · intro c held
    obtain ⟨e, own, linked⟩ := objects.owns c (conns ▸ held)
    exact ⟨e, own, (link e c).mpr linked⟩
  · intro h
    simp only [conns, slists, header]
    exact objects.headers h
  · intro c held c' held' h
    rw [header, header]
    exact objects.apart c (conns ▸ held) c' (conns ▸ held') h

end Objects

section Runsingle

variable {m n : Http} {loose : Finset ℕ} {e c : ℕ}

theorem Inv.mem_easyp (inv : Inv m loose) (alive : e ∈ m.curlm.alive) : e ∈ m.curlm.easyp := by
  rw [← Multiset.mem_coe, ← inv.queue]
  exact Multiset.mem_add.mpr (.inl alive)

theorem Inv.owner (inv : Inv m loose) (added : e ∈ m.curlm.easyp) :
    ∃ c ∈ m.conns.held, Linked m e c :=
  inv.objects.owner e (Finset.mem_union_left _ (List.mem_toFinset.mpr added))

theorem Inv.number_inj (inv : Inv m loose) {e' : ℕ} (h : e ∈ m.curlm.easyp)
    (h' : e' ∈ m.curlm.easyp) (same : m.number e = m.number e') : e = e' := by
  have nodup := (inv.numbers.nodup_iff.mpr List.nodup_range).of_append_right
  exact List.inj_on_of_nodup_map nodup h h' same

theorem Inv.number_lt (inv : Inv m loose) (h : e ∈ m.curlm.easyp) :
    m.number e < m.asked.length := by
  have mem := inv.numbers.subset (List.mem_append_right _ (List.mem_map_of_mem h))
  exact List.mem_range.mp mem

theorem Inv.report_lt (inv : Inv m loose) {r : Report} (logged : r ∈ m.log) :
    r.no < m.asked.length := by
  have mem := inv.numbers.subset (List.mem_append_left _ (List.mem_map_of_mem logged))
  exact List.mem_range.mp mem

theorem Inv.number_new (inv : Inv m loose) (h : e ∈ m.curlm.easyp) {r : Report} (logged : r ∈ m.log) :
    r.no ≠ m.number e := by
  have apart := List.disjoint_of_nodup_append (inv.numbers.nodup_iff.mpr List.nodup_range)
  intro same
  exact apart (List.mem_map_of_mem logged) (same ▸ List.mem_map_of_mem h)

def deliver (m : Http) (e c : ℕ) (buffer : Text) : Http :=
  { m with
    conn := Function.update m.conn c
      { m.conn c with m_strResp := (m.conn c).m_strResp ++ buffer }
    body := Function.update m.body (m.number e) (m.body (m.number e) ++ buffer) }

theorem runsingle_received (alive : e ∈ m.curlm.alive) (held : c ∈ m.conns.held) (link : Linked m e c) (buffer : Text) :
    runsingle m (.received e buffer) = deliver m e c buffer := by
  have fine : (m.fault || !(some c).any fun c => decide (c ∈ m.conns.held)) = m.fault := by
    simp [held]
  simp only [runsingle, if_pos alive, link.writes, easyWriteCallback, Http.follow, Http.assert, fine]
  rfl

theorem deliver_conn (m : Http) (e c : ℕ) (buffer : Text) (i : ℕ) :
    ((deliver m e c buffer).conn i).GetCurlHandle = (m.conn i).GetCurlHandle ∧
      ((deliver m e c buffer).conn i).m_header = (m.conn i).m_header ∧
      ((deliver m e c buffer).conn i).m_strUrl = (m.conn i).m_strUrl := by
  by_cases same : i = c
  · simp [deliver, same, CConnInfo.GetCurlHandle]
  · simp [deliver, Function.update_of_ne same]

theorem Inv.deliver (inv : Inv m loose) (alive : e ∈ m.curlm.alive) (link : Linked m e c)
    (buffer : Text) : Inv (deliver m e c buffer) loose := by
  have mine := inv.mem_easyp alive
  refine ⟨inv.queue, inv.nodup, inv.apart, inv.count, ?_, inv.numbers, ?_, ?_, ?_, inv.fine⟩
  · exact inv.objects.congr rfl rfl rfl rfl (fun i => (deliver_conn m e c buffer i).1)
      fun i => (deliver_conn m e c buffer i).2.1
  · intro i added d priv
    obtain ⟨url, resp⟩ := inv.known i added d priv
    refine ⟨url.trans (congrArg some (deliver_conn m e c buffer d).2.2.symm), ?_⟩
    by_cases same : i = e
    · obtain rfl : d = c := Option.some.inj (priv.symm.trans (same ▸ link.priv))
      simp only [HttpClient.deliver, same, Function.update_self]
      rw [resp, same]
    · have other : d ≠ c := by
        rintro rfl
        obtain ⟨c', -, link'⟩ := inv.owner added
        obtain rfl : d = c' := Option.some.inj (priv.symm.trans link'.priv)
        exact same (link'.same_handle link)
      have number : m.number i ≠ m.number e := fun h => same (inv.number_inj added mine h)
      simp only [HttpClient.deliver, Function.update_of_ne other, Function.update_of_ne number]
      exact resp
  · intro r logged
    obtain ⟨url, resp⟩ := inv.logged r logged
    refine ⟨url, ?_⟩
    simp only [HttpClient.deliver, Function.update_of_ne (inv.number_new mine logged)]
    exact resp
  · intro i high
    have other : i ≠ m.number e := by
      rintro rfl
      exact absurd (inv.number_lt mine) (Nat.not_lt.mpr high)
    simp only [HttpClient.deliver, Function.update_of_ne other]
    exact inv.later i high

theorem Inv.completed (inv : Inv m loose) (e : ℕ) : Inv (runsingle m (.completed e)) loose := by
  unfold runsingle
  dsimp only
  split_ifs with alive
  · refine ⟨?_, inv.nodup, inv.apart, ?_, inv.objects.congr rfl rfl rfl rfl (fun _ => rfl)
      (fun _ => rfl), inv.numbers, inv.known, inv.logged, inv.later, inv.fine⟩
    · dsimp only
      rw [← inv.queue, Finset.erase_val, ← Multiset.coe_add, ← add_assoc, Multiset.coe_singleton,
        add_right_comm, Multiset.add_comm _ {e}, Multiset.singleton_add,
        Multiset.cons_erase (Finset.mem_val.mpr alive)]
    · dsimp only
      rw [inv.count, Finset.card_erase_of_mem alive]
      have := Finset.card_pos.mpr ⟨e, alive⟩
      omega
  · exact inv

/-- What libcurl does of its own accord. -/
structure Acts (m n : Http) : Prop where
  inv : ∀ loose, Inv m loose → Inv n loose
  easy : n.easy = m.easy
  easyp : n.curlm.easyp = m.curlm.easyp
  conns : n.conns = m.conns
  log : n.log = m.log

theorem Acts.refl (m : Http) : Acts m m := ⟨fun _ inv => inv, rfl, rfl, rfl, rfl⟩

theorem Acts.trans {k : Http} (first : Acts m n) (second : Acts n k) : Acts m k :=
  ⟨fun loose inv => second.inv loose (first.inv loose inv), second.easy.trans first.easy,
    second.easyp.trans first.easyp, second.conns.trans first.conns, second.log.trans first.log⟩

theorem Inv.counted (inv : Inv m loose) (calls updates : ℕ) (running : Int) (timers : List Int) :
    Inv { m with calls := calls, updates := updates, m_iRunning := running, timers := timers }
      loose :=
  ⟨inv.queue, inv.nodup, inv.apart, inv.count, inv.objects.congr rfl rfl rfl rfl (fun _ => rfl)
    fun _ => rfl, inv.numbers, inv.known, inv.logged, inv.later, inv.fine⟩

theorem Acts.counted (m : Http) (calls updates : ℕ) (running : Int) (timers : List Int) :
    Acts m { m with calls := calls, updates := updates, m_iRunning := running, timers := timers } :=
  ⟨fun _ inv => inv.counted calls updates running timers, rfl, rfl, rfl, rfl⟩

theorem easyWriteCallback_frame (m : Http) (buffer : Text) (outstream : Option ℕ) :
    (easyWriteCallback m buffer outstream).easy = m.easy ∧
      (easyWriteCallback m buffer outstream).curlm = m.curlm ∧
      (easyWriteCallback m buffer outstream).conns = m.conns ∧
      (easyWriteCallback m buffer outstream).log = m.log := by
  cases outstream <;> exact ⟨rfl, rfl, rfl, rfl⟩

theorem Acts.runsingle (m : Http) (p : Progress) : Acts m (runsingle m p) := by
  cases p with
  | received e buffer =>
      refine ⟨fun loose inv => ?_, ?_, ?_, ?_, ?_⟩
      · by_cases alive : e ∈ m.curlm.alive
        · obtain ⟨c, held, link⟩ := inv.owner (inv.mem_easyp alive)
          rw [runsingle_received alive held link]
          exact inv.deliver alive link buffer
        · rwa [HttpClient.runsingle, if_neg alive]
      all_goals
        unfold HttpClient.runsingle
        dsimp only
        split_ifs
        · simp [easyWriteCallback_frame]
        · rfl
  | completed e =>
      refine ⟨fun loose inv => inv.completed e, ?_, ?_, ?_, ?_⟩
      all_goals
        unfold HttpClient.runsingle
        dsimp only
        split_ifs <;> rfl

end Runsingle

section Callbacks

variable {lib : Libcurl} {m n : Http}

theorem Acts.multi_socket (m : Http) (s : Int) (ev_bitmask : Mask) :
    Acts m (lib.multi_socket m s ev_bitmask) := by
  have foldl : ∀ (ps : List Progress) (m : Http), Acts m (ps.foldl HttpClient.runsingle m) := by
    intro ps
    induction ps with
    | nil => exact Acts.refl
    | cons p ps ih => exact fun m => (Acts.runsingle m p).trans (ih _)
  exact ((Acts.counted m _ _ _ _).trans (foldl _ _)).trans (Acts.counted _ _ _ _ _)

/-- An answer to a timeout does what libcurl may do, and leaves the number of running transfers right
if it was right. -/
def Answers (timer_cb : Http → Int → Option Http) : Prop :=
  ∀ m timeout_ms n, timer_cb m timeout_ms = some n → Acts m n ∧
    (m.m_iRunning = m.curlm.num_alive → n.m_iRunning = n.curlm.num_alive)

theorem Answers.update_timer {timer_cb : Http → Int → Option Http} (answers : Answers timer_cb)
    (h : lib.update_timer timer_cb m = some n) :
    Acts m n ∧ (m.m_iRunning = m.curlm.num_alive → n.m_iRunning = n.curlm.num_alive) := by
  unfold Libcurl.update_timer at h
  have counted := Acts.counted m m.calls (m.updates + 1) m.m_iRunning m.timers
  split at h
  · obtain rfl := Option.some.inj h
    exact ⟨counted, id⟩
  · obtain ⟨acts, running⟩ := answers _ _ _ h
    exact ⟨counted.trans acts, running⟩

theorem curl_multi_socket_action_acts {fuel : ℕ} {s : Int} {ev_bitmask : Mask}
    (h : lib.curl_multi_socket_action fuel m s ev_bitmask = some n) :
    Acts m n ∧ n.m_iRunning = n.curlm.num_alive := by
  induction fuel generalizing m n s ev_bitmask with
  | zero => cases h
  | succ fuel ih =>
      have answers : Answers (multiTimerCallback fun m =>
          lib.curl_multi_socket_action fuel m CURL_SOCKET_TIMEOUT 0#32) := by
        intro m timeout_ms n h
        unfold multiTimerCallback at h
        split_ifs at h
        · obtain rfl := Option.some.inj h
          exact ⟨Acts.counted m _ _ _ _, id⟩
        · obtain ⟨acts, running⟩ := ih h
          exact ⟨acts, fun _ => running⟩
        · obtain rfl := Option.some.inj h
          exact ⟨Acts.refl m, id⟩
      obtain ⟨acts, running⟩ := answers.update_timer h
      exact ⟨(Acts.multi_socket m s ev_bitmask).trans acts, running rfl⟩

theorem timer_cb_answers (lib : Libcurl) (fuel : ℕ) : Answers (lib.timer_cb fuel) := by
  intro m timeout_ms n h
  unfold Libcurl.timer_cb multiTimerCallback at h
  split_ifs at h
  · obtain rfl := Option.some.inj h
    exact ⟨Acts.counted m _ _ _ _, id⟩
  · obtain ⟨acts, running⟩ := curl_multi_socket_action_acts h
    exact ⟨acts, fun _ => running⟩
  · obtain rfl := Option.some.inj h
    exact ⟨Acts.refl m, id⟩

end Callbacks

section Reported

variable {lib : Libcurl} {m n : Http} {owned : Finset ℕ} {e c : ℕ} {rest : List ℕ}

theorem follow_held (m : Http) (held : c ∈ m.conns.held) : m.follow (some c) = m := by
  simp [Http.follow, Http.assert, held]

def freed (m : Http) (e c : ℕ) : Http :=
  { m with
    slists := (m.conn c).m_header.elim m.slists m.slists.release
    easies := m.easies.release e
    conns := m.conns.release c }

theorem deleteConnInfo_eq (fuel : ℕ) (held : c ∈ m.conns.held) (link : Linked m e c)
    (gone : e ∉ m.curlm.easyp) : lib.deleteConnInfo fuel m c = some (freed m e c) := by
  unfold Libcurl.deleteConnInfo
  rw [follow_held m held]
  simp only [link.handle, Option.elim_some, Libcurl.curl_easy_cleanup,
    Libcurl.curl_multi_remove_handle, if_neg gone, Option.map_some]
  rfl

theorem Objects.freed (objects : Objects m owned) (own : e ∈ owned) (held : c ∈ m.conns.held)
    (link : Linked m e c) : Objects (freed m e c) (owned.erase e) := by
  have released : ∀ h, h ∈ (HttpClient.freed m e c).slists.held ↔
      h ∈ m.slists.held ∧ (m.conn c).m_header ≠ some h := by
    intro h
    unfold HttpClient.freed
    cases (m.conn c).m_header with
    | none => simp
    | some g =>
        simp only [Option.elim_some, Account.release, Finset.mem_erase, ne_eq, Option.some.injEq]
        rw [eq_comm, and_comm]
  constructor
  · simp [HttpClient.freed, Account.release, objects.easies, own]
  · simp [HttpClient.freed, Account.release, objects.conns, held]
  · unfold HttpClient.freed
    dsimp only
    cases header : (m.conn c).m_header with
    | none => exact objects.slists
    | some h =>
        have used := (objects.headers h).mpr ⟨c, held, header⟩
        simp [Account.release, objects.slists, used]
  · intro e' own'
    obtain ⟨other, own'⟩ := Finset.mem_erase.mp own'
    obtain ⟨c', held', link'⟩ := objects.owner e' own'
    refine ⟨c', Finset.mem_erase.mpr ⟨?_, held'⟩, ⟨link'.priv, link'.writes, link'.handle⟩⟩
    rintro rfl
    exact other (link'.same_handle link)
  · intro c' held'
    obtain ⟨other, held'⟩ := Finset.mem_erase.mp held'
    obtain ⟨e', own', link'⟩ := objects.owns c' held'
    refine ⟨e', Finset.mem_erase.mpr ⟨?_, own'⟩, ⟨link'.priv, link'.writes, link'.handle⟩⟩
    rintro rfl
    exact other (link'.same_conn link)
  · intro h
    rw [released, objects.headers]
    constructor
    · rintro ⟨⟨c', held', header⟩, unlike⟩
      refine ⟨c', Finset.mem_erase.mpr ⟨?_, held'⟩, header⟩
      rintro rfl
      exact unlike header
    · rintro ⟨c', held', header⟩
      obtain ⟨other, held'⟩ := Finset.mem_erase.mp held'
      exact ⟨⟨c', held', header⟩, fun mine => other (objects.apart c' held' c held h header mine)⟩
  · intro c' held' c'' held'' h header header'
    exact objects.apart c' (Finset.mem_of_mem_erase held') c'' (Finset.mem_of_mem_erase held'') h
      header header'

theorem Inv.freed (inv : Inv m {e}) (held : c ∈ m.conns.held) (link : Linked m e c) :
    Inv (freed m e c) ∅ := by
  have gone : e ∉ m.curlm.easyp.toFinset := Finset.disjoint_singleton_right.mp inv.apart
  have objects := inv.objects.freed
    (Finset.mem_union_right _ (Finset.mem_singleton_self e)) held link
  rw [Finset.erase_union_distrib, Finset.erase_singleton, Finset.union_empty,
    Finset.erase_eq_of_notMem gone] at objects
  refine ⟨inv.queue, inv.nodup, Finset.disjoint_empty_right _, inv.count, ?_, inv.numbers,
    inv.known, inv.logged, inv.later, inv.fine⟩
  rw [Finset.union_empty]
  exact objects

/-- The state in which `curl_multi_remove_handle` calls `update_timer`. -/
def reported (m : Http) (e c : ℕ) (rest : List ℕ) : Http :=
  { m with
    log := m.log ++ [⟨m.number e, (m.conn c).m_strUrl, (m.conn c).m_strResp⟩]
    curlm :=
      { easyp := m.curlm.easyp.erase e
        alive := m.curlm.alive.erase e
        num_alive := if e ∈ m.curlm.alive then m.curlm.num_alive - 1 else m.curlm.num_alive
        msglist := rest.erase e } }

theorem Inv.message (inv : Inv m ∅) (head : m.curlm.msglist = e :: rest) :
    e ∈ m.curlm.easyp ∧ e ∉ m.curlm.alive ∧ e ∉ rest := by
  have queue := inv.queue
  rw [head] at queue
  have nodup : (m.curlm.alive.val + ↑(e :: rest)).Nodup := by
    rw [queue]
    exact Multiset.coe_nodup.mpr inv.nodup
  obtain ⟨-, waits, apart⟩ := Multiset.nodup_add.mp nodup
  refine ⟨?_, ?_, (List.nodup_cons.mp (Multiset.coe_nodup.mp waits)).1⟩
  · rw [← Multiset.mem_coe, ← queue]
    exact Multiset.mem_add.mpr (.inr (by simp))
  · intro alive
    exact Multiset.disjoint_left.mp apart alive (by simp)

theorem Inv.reported (inv : Inv m ∅) (head : m.curlm.msglist = e :: rest)
    (link : Linked m e c) : Inv (reported m e c rest) {e} := by
  obtain ⟨added, dead, once⟩ := inv.message head
  have known := inv.known e added c link.priv
  refine ⟨?_, inv.nodup.erase e, ?_, ?_, ?_, ?_, fun i h => ?_, ?_, inv.later, inv.fine⟩
  · have queue := inv.queue
    simp only [HttpClient.reported, Finset.erase_eq_of_notMem dead, List.erase_of_not_mem once]
    rw [← Multiset.coe_erase, ← queue, head, ← Multiset.cons_coe,
      Multiset.erase_add_right_pos _ (Multiset.mem_cons_self e _), Multiset.erase_cons_head]
  · rw [Finset.disjoint_singleton_right, List.mem_toFinset]
    exact inv.nodup.not_mem_erase
  · simp only [HttpClient.reported, Finset.erase_eq_of_notMem dead, if_neg dead]
    exact inv.count
  · have owned : (m.curlm.easyp.erase e).toFinset ∪ {e} = m.curlm.easyp.toFinset ∪ ∅ := by
      ext i
      by_cases same : i = e
      · simp [same, added]
      · simp [same, List.mem_erase_of_ne]
    simp only [HttpClient.reported]
    rw [owned]
    exact inv.objects.congr rfl rfl rfl rfl (fun _ => rfl) fun _ => rfl
  · have perm : m.curlm.easyp.Perm (e :: m.curlm.easyp.erase e) := List.perm_cons_erase added
    simp only [HttpClient.reported, List.map_append, List.map_cons, List.map_nil, List.append_assoc,
      List.singleton_append]
    exact ((perm.map m.number).symm.append_left _).trans inv.numbers
  · exact inv.known i (List.mem_of_mem_erase h)
  · intro r logged
    rcases List.mem_append.mp logged with before | new
    · exact inv.logged r before
    · obtain rfl := List.mem_singleton.mp new
      exact known

theorem checkMessage_eq (fuel : ℕ) (inv : Inv m ∅) (head : m.curlm.msglist = e :: rest)
    (held : c ∈ m.conns.held) (link : Linked m e c) :
    lib.checkMessage fuel m = (lib.update_timer (lib.timer_cb fuel) (reported m e c rest)).bind
      fun m => lib.deleteConnInfo fuel m c := by
  obtain ⟨added, -, -⟩ := inv.message head
  have fine : (({ m with curlm := { m.curlm with msglist := rest } } : Http).follow
      (some c)).assert (some e == (m.conn c).GetCurlHandle) =
        { m with curlm := { m.curlm with msglist := rest } } := by
    simp [Http.follow, Http.assert, held, link.handle]
  unfold Libcurl.checkMessage
  rw [head]
  simp only [link.priv, fine, Libcurl.curl_multi_remove_handle, if_pos added]
  rfl

theorem Inv.first (inv : Inv m ∅) (waits : m.curlm.msglist.isEmpty = false) :
    ∃ e rest c, m.curlm.msglist = e :: rest ∧ c ∈ m.conns.held ∧ Linked m e c := by
  obtain ⟨e, rest, head⟩ : ∃ e rest, m.curlm.msglist = e :: rest := by
    cases msglist : m.curlm.msglist with
    | nil => simp [msglist] at waits
    | cons e rest => exact ⟨e, rest, rfl⟩
  obtain ⟨c, held, link⟩ := inv.owner (inv.message head).1
  exact ⟨e, rest, c, head, held, link⟩

theorem Inv.cleaned {fuel : ℕ} {k : Http} (inv : Inv m ∅) (head : m.curlm.msglist = e :: rest)
    (link : Linked m e c)
    (update : lib.update_timer (lib.timer_cb fuel) (HttpClient.reported m e c rest) = some k) :
    lib.deleteConnInfo fuel k c = some (HttpClient.freed k e c) ∧
      Inv (HttpClient.freed k e c) ∅ := by
  have acts := ((timer_cb_answers lib fuel).update_timer update).1
  have later := acts.inv {e} (inv.reported head link)
  have priv : (k.easy e).PRIVATE = some c := by
    rw [acts.easy]
    exact link.priv
  obtain ⟨c', held', link'⟩ := later.objects.owner e
    (Finset.mem_union_right _ (Finset.mem_singleton_self e))
  obtain rfl : c' = c := Option.some.inj (link'.priv.symm.trans priv)
  have gone : e ∉ k.curlm.easyp := fun again => Finset.disjoint_left.mp later.apart
    (List.mem_toFinset.mpr again) (Finset.mem_singleton_self e)
  exact ⟨deleteConnInfo_eq fuel held' link' gone, later.freed held' link'⟩

theorem checkMessage_spec {fuel : ℕ} (inv : Inv m ∅) (waits : m.curlm.msglist.isEmpty = false)
    (h : lib.checkMessage fuel m = some n) :
    Inv n ∅ ∧ n.curlm.easyp.length < m.curlm.easyp.length ∧
      (m.m_iRunning = m.curlm.num_alive → n.m_iRunning = n.curlm.num_alive) := by
  obtain ⟨e, rest, c, head, held, link⟩ := inv.first waits
  obtain ⟨added, dead, -⟩ := inv.message head
  rw [checkMessage_eq fuel inv head held link] at h
  obtain ⟨k, update, delete⟩ := Option.bind_eq_some_iff.mp h
  obtain ⟨acts, running⟩ := (timer_cb_answers lib fuel).update_timer update
  obtain ⟨done, later⟩ := inv.cleaned head link update
  obtain rfl := Option.some.inj (done.symm.trans delete)
  refine ⟨later, ?_, fun right => ?_⟩
  · change k.curlm.easyp.length < _
    rw [acts.easyp]
    change (m.curlm.easyp.erase e).length < _
    rw [List.length_erase_of_mem added]
    have := List.length_pos_of_mem added
    omega
  · refine running ?_
    simp only [HttpClient.reported, if_neg dead]
    exact right

end Reported

section Added

variable {lib : Libcurl} {m n : Http} {owned : Finset ℕ} {e c : ℕ} {header : Option ℕ}
  {strUrl strHost : Text} {i64TimeOutMs : Int}

/-- The state in which `curl_multi_add_handle` calls `update_timer`. -/
def added (m : Http) (e c : ℕ) (header : Option ℕ) (calls : ℕ) (slist : ℕ → List Text)
    (strUrl : Text) (i64TimeOutMs : Int) : Http :=
  { m with
    calls := calls
    conns := m.conns.acquire c
    easies := m.easies.acquire e
    slists := header.elim m.slists m.slists.acquire
    conn := Function.update m.conn c
      ⟨strUrl, i64TimeOutMs, Function.update (fun _ => none) i64TimeOutMs (some e), header, []⟩
    easy := Function.update m.easy e
      ⟨some 1, some 120, some 30, some strUrl,
        if i64TimeOutMs > 0 then some i64TimeOutMs else none, header, some c, some c⟩
    slist := slist
    curlm :=
      { m.curlm with
        easyp := m.curlm.easyp ++ [e]
        alive := insert e m.curlm.alive
        num_alive := m.curlm.num_alive + 1 }
    number := Function.update m.number e m.asked.length
    asked := m.asked ++ [strUrl] }

theorem addHttpCondi_eq (inv : Inv m ∅) (fuel : ℕ) :
    ∃ e c header calls slist, e ∉ m.easies.held ∧ c ∉ m.conns.held ∧
      (∀ h, header = some h → h ∉ m.slists.held) ∧
      lib.addHttpCondi fuel m strUrl strHost i64TimeOutMs =
        (lib.update_timer (lib.timer_cb fuel)
          (added m e c header calls slist strUrl i64TimeOutMs)).map fun n => (0, n) := by
  have easies := inv.objects.easies
  have new := lib.alloc_new (m.calls + 1) m.easies.held
  have absent : lib.alloc (m.calls + 1) m.easies.held ∉ m.curlm.easyp := by
    intro before
    rw [easies] at new
    rw [easies] at before
    exact new (Finset.mem_union_left _ (List.mem_toFinset.mpr before))
  by_cases host : strHost = []
  · refine ⟨_, _, none, m.calls + 1 + 1, m.slist, new, lib.alloc_new m.calls m.conns.held,
      fun h same => (by cases same), ?_⟩
    simp [Libcurl.addHttpCondi, Libcurl.newConnInfo, Libcurl.handleFor, Libcurl.hostHeader,
      CConnInfo.GetCurlHandle, Libcurl.curl_easy_init, Libcurl.curl_multi_add_handle, host, absent,
      added, Easy.init, Function.comp_def]
  · refine ⟨_, _, some (lib.alloc (m.calls + 1 + 1) m.slists.held), m.calls + 1 + 1 + 1,
      Function.update m.slist (lib.alloc (m.calls + 1 + 1) m.slists.held)
        ["Host: ".toList ++ strHost], new, lib.alloc_new m.calls m.conns.held,
      fun h same => Option.some.inj same ▸ lib.alloc_new _ m.slists.held, ?_⟩
    simp [Libcurl.addHttpCondi, Libcurl.newConnInfo, Libcurl.handleFor, Libcurl.hostHeader,
      CConnInfo.GetCurlHandle, Libcurl.curl_easy_init, Libcurl.curl_multi_add_handle, host, absent,
      added, Easy.init, Libcurl.curl_slist_append, Function.comp_def]

theorem Objects.added (objects : Objects m owned) (newHandle : e ∉ owned)
    (newConn : c ∉ m.conns.held) (newHeader : ∀ h, header = some h → h ∉ m.slists.held)
    (calls : ℕ) (slist : ℕ → List Text) (strUrl : Text) (i64TimeOutMs : Int) :
    Objects (added m e c header calls slist strUrl i64TimeOutMs) (insert e owned) := by
  set a := HttpClient.added m e c header calls slist strUrl i64TimeOutMs with state
  have conn : ∀ i, i ≠ c → a.conn i = m.conn i := fun i other => Function.update_of_ne other _ _
  have easy : ∀ i, i ≠ e → a.easy i = m.easy i := fun i other => Function.update_of_ne other _ _
  have held : a.conns.held = insert c m.conns.held := rfl
  have header_c : (a.conn c).m_header = header := by simp [state, HttpClient.added]
  have link : Linked a e c :=
    ⟨by simp [state, HttpClient.added], by simp [state, HttpClient.added],
      by simp [state, HttpClient.added, CConnInfo.GetCurlHandle]⟩
  have links : ∀ i d, i ∈ owned → d ∈ m.conns.held → Linked m i d → Linked a i d := by
    intro i d own used linked
    have i_ne : i ≠ e := fun same => newHandle (same ▸ own)
    have d_ne : d ≠ c := fun same => newConn (same ▸ used)
    exact ⟨easy i i_ne ▸ linked.priv, easy i i_ne ▸ linked.writes, conn d d_ne ▸ linked.handle⟩
  have slists : ∀ h, h ∈ a.slists.held ↔ h ∈ m.slists.held ∨ header = some h := by
    intro h
    cases header with
    | none => simp [state, HttpClient.added]
    | some g => simp [state, HttpClient.added, Account.acquire, or_comm, eq_comm]
  have ne_of_held : ∀ {d}, d ∈ m.conns.held → d ≠ c := fun used same => newConn (same ▸ used)
  constructor
  · simp [state, HttpClient.added, Account.acquire, objects.easies, newHandle]
  · simp [state, HttpClient.added, Account.acquire, objects.conns, newConn]
  · cases header with
    | none => exact objects.slists
    | some g =>
        simp [state, HttpClient.added, Account.acquire, objects.slists, newHeader g rfl]
  · intro i own
    rcases Finset.mem_insert.mp own with rfl | own
    · exact ⟨c, held ▸ Finset.mem_insert_self c _, link⟩
    · obtain ⟨d, used, linked⟩ := objects.owner i own
      exact ⟨d, held ▸ Finset.mem_insert_of_mem used, links i d own used linked⟩
  · intro d used
    rcases Finset.mem_insert.mp (held ▸ used) with rfl | used
    · exact ⟨e, Finset.mem_insert_self e _, link⟩
    · obtain ⟨i, own, linked⟩ := objects.owns d used
      exact ⟨i, Finset.mem_insert_of_mem own, links i d own used linked⟩
  · intro h
    rw [slists, held, objects.headers]
    constructor
    · rintro (⟨d, used, mine⟩ | new)
      · exact ⟨d, Finset.mem_insert_of_mem used, conn d (ne_of_held used) ▸ mine⟩
      · exact ⟨c, Finset.mem_insert_self c _, header_c.trans new⟩
    · rintro ⟨d, used, mine⟩
      rcases Finset.mem_insert.mp used with rfl | used
      · exact .inr (header_c.symm.trans mine)
      · exact .inl ⟨d, used, conn d (ne_of_held used) ▸ mine⟩
  · intro d used d' used' h mine mine'
    rw [held] at used used'
    have old : ∀ {i}, i ∈ m.conns.held → (a.conn i).m_header = some h → header ≠ some h := by
      intro i before known new
      rw [conn i (ne_of_held before)] at known
      exact newHeader h new ((objects.headers h).mpr ⟨i, before, known⟩)
    rcases Finset.mem_insert.mp used with rfl | before
    · rcases Finset.mem_insert.mp used' with rfl | before'
      · rfl
      · exact absurd (header_c.symm.trans mine) (old before' mine')
    · rcases Finset.mem_insert.mp used' with rfl | before'
      · exact absurd (header_c.symm.trans mine') (old before mine)
      · rw [conn d (ne_of_held before)] at mine
        rw [conn d' (ne_of_held before')] at mine'
        exact objects.apart d before d' before' h mine mine'

theorem Inv.added (inv : Inv m ∅) (newHandle : e ∉ m.easies.held) (newConn : c ∉ m.conns.held)
    (newHeader : ∀ h, header = some h → h ∉ m.slists.held) (calls : ℕ) (slist : ℕ → List Text)
    (strUrl : Text) (i64TimeOutMs : Int) :
    Inv (added m e c header calls slist strUrl i64TimeOutMs) ∅ := by
  have objects := inv.objects
  rw [Finset.union_empty] at objects
  rw [objects.easies] at newHandle
  have absent : e ∉ m.curlm.easyp := fun before => newHandle (List.mem_toFinset.mpr before)
  have dead : e ∉ m.curlm.alive := fun alive => absent (inv.mem_easyp alive)
  have other : ∀ i ∈ m.curlm.easyp, i ≠ e := fun i before same => absent (same ▸ before)
  have numbers : (m.curlm.easyp.map (Function.update m.number e m.asked.length)) =
      m.curlm.easyp.map m.number :=
    List.map_congr_left fun i before => Function.update_of_ne (other i before) _ _
  refine ⟨?_, ?_, Finset.disjoint_empty_right _, ?_, ?_, ?_, ?_, ?_, ?_, inv.fine⟩
  · simp only [HttpClient.added]
    rw [Finset.insert_val_of_notMem dead, ← Multiset.coe_add, ← inv.queue, Multiset.cons_add,
      Multiset.coe_singleton, ← Multiset.singleton_add, add_comm]
  · exact List.nodup_append.mpr ⟨inv.nodup, List.nodup_singleton e, fun i before j last => by
      rw [List.mem_singleton.mp last]
      exact other i before⟩
  · simp only [HttpClient.added]
    rw [inv.count, Finset.card_insert_of_notMem dead, Nat.cast_succ]
  · have more := objects.added newHandle newConn newHeader calls slist strUrl i64TimeOutMs
    have owned : (m.curlm.easyp ++ [e]).toFinset ∪ ∅ = insert e m.curlm.easyp.toFinset := by
      ext i
      simp
    simp only [HttpClient.added] at more ⊢
    rw [owned]
    exact more
  · simp only [HttpClient.added, List.map_append, List.map_cons, List.map_nil,
      Function.update_self, numbers, List.length_append, List.length_singleton, List.range_succ]
    rw [← List.append_assoc]
    exact inv.numbers.append_right _
  · intro i before d priv
    rcases List.mem_append.mp before with before | last
    · have i_ne := other i before
      have priv' : (m.easy i).PRIVATE = some d := by
        simpa [HttpClient.added, Function.update_of_ne i_ne] using priv
      obtain ⟨d', held, link⟩ := inv.owner before
      obtain rfl : d' = d := Option.some.inj (link.priv.symm.trans priv')
      have d_ne : d' ≠ c := fun same => newConn (same ▸ held)
      obtain ⟨url, resp⟩ := inv.known i before d' priv'
      simp only [HttpClient.added, Function.update_of_ne i_ne, Function.update_of_ne d_ne]
      exact ⟨(List.getElem?_append_left (inv.number_lt before)).trans url, resp⟩
    · obtain rfl := List.mem_singleton.mp last
      obtain rfl : c = d := by simpa [HttpClient.added] using priv
      simp [HttpClient.added, inv.later _ (Nat.le_refl _)]
  · intro r logged
    obtain ⟨url, resp⟩ := inv.logged r logged
    exact ⟨(List.getElem?_append_left (inv.report_lt logged)).trans url, resp⟩
  · intro i high
    have high' : m.asked.length + 1 ≤ i := by simpa [HttpClient.added] using high
    exact inv.later i (by omega)

theorem addHttpCondi_spec (inv : Inv m ∅) {fuel : ℕ} {r : Int × Http}
    (h : lib.addHttpCondi fuel m strUrl strHost i64TimeOutMs = some r) :
    r.1 = 0 ∧ Inv r.2 ∅ := by
  obtain ⟨e, c, header, calls, slist, newHandle, newConn, newHeader, eq⟩ :=
    @addHttpCondi_eq lib m strUrl strHost i64TimeOutMs inv fuel
  rw [eq] at h
  obtain ⟨n, update, rfl⟩ := Option.map_eq_some_iff.mp h
  have acts := ((timer_cb_answers lib fuel).update_timer update).1
  exact ⟨rfl, acts.inv ∅ (inv.added newHandle newConn newHeader calls slist strUrl i64TimeOutMs)⟩

end Added

section Runs

variable {lib : Libcurl} {m n : Http}

theorem checkMultiInfo_spec {fuel : ℕ} (inv : Inv m ∅) (right : m.m_iRunning = m.curlm.num_alive)
    (h : lib.checkMultiInfo fuel m = some n) :
    Inv n ∅ ∧ n.curlm.msglist = [] ∧ n.m_iRunning = n.curlm.num_alive := by
  obtain ⟨⟨inv, right⟩, empty⟩ := WhileLoop.runNested_invariant
    (fun m => Inv m ∅ ∧ m.m_iRunning = m.curlm.num_alive)
    (fun fuel m n ⟨inv, right⟩ waits turn =>
      have spec := checkMessage_spec inv waits turn
      ⟨spec.1, spec.2.2 right⟩) ⟨inv, right⟩ h
  exact ⟨inv, List.isEmpty_iff.mp empty, right⟩

theorem evSockCallback_spec {fuel fd : ℕ} {mask : Mask} (inv : Inv m ∅)
    (h : lib.evSockCallback fuel m fd mask = some n) :
    Inv n ∅ ∧ n.curlm.msglist = [] ∧ n.m_iRunning = n.curlm.num_alive := by
  obtain ⟨k, action, check⟩ := Option.bind_eq_some_iff.mp h
  obtain ⟨acts, right⟩ := curl_multi_socket_action_acts action
  exact checkMultiInfo_spec (acts.inv ∅ inv) right check

end Runs

section Returns

variable {lib : Libcurl} {m n : Http} {i j : ℕ}

/-- libcurl does not report a timeout of 0 for ever. -/
def Libcurl.Settles (lib : Libcurl) : Prop := ∀ k, ∃ j, k ≤ j ∧ lib.timeout j ≠ some 0

theorem update_timer_mono {timer_cb timer_cb' : Http → Int → Option Http}
    (more : ∀ m t n, timer_cb m t = some n → timer_cb' m t = some n)
    (h : lib.update_timer timer_cb m = some n) : lib.update_timer timer_cb' m = some n := by
  unfold Libcurl.update_timer at h ⊢
  split at h
  · exact h
  · exact more _ _ _ h

theorem multiTimerCallback_mono {evHttpTimerCb evHttpTimerCb' : Http → Option Http}
    (more : ∀ m n, evHttpTimerCb m = some n → evHttpTimerCb' m = some n) (m : Http) (t : Int)
    (n : Http) (h : multiTimerCallback evHttpTimerCb m t = some n) :
    multiTimerCallback evHttpTimerCb' m t = some n := by
  unfold multiTimerCallback at h ⊢
  split_ifs at h ⊢
  · exact h
  · exact more m n h
  · exact h

theorem curl_multi_socket_action_mono {s : Int} {ev_bitmask : Mask} (le : i ≤ j)
    (h : lib.curl_multi_socket_action i m s ev_bitmask = some n) :
    lib.curl_multi_socket_action j m s ev_bitmask = some n := by
  induction i generalizing j m n s ev_bitmask with
  | zero => cases h
  | succ i ih =>
      obtain ⟨j, rfl⟩ : ∃ k, j = k + 1 := ⟨j - 1, by omega⟩
      exact update_timer_mono (multiTimerCallback_mono fun _ _ => ih (by omega)) h

theorem timer_cb_mono (le : i ≤ j) (m : Http) (t : Int) (n : Http)
    (h : lib.timer_cb i m t = some n) : lib.timer_cb j m t = some n :=
  multiTimerCallback_mono (fun _ _ => curl_multi_socket_action_mono le) m t n h

theorem curl_multi_remove_handle_mono {e : ℕ} (le : i ≤ j)
    (h : lib.curl_multi_remove_handle i m e = some n) :
    lib.curl_multi_remove_handle j m e = some n := by
  unfold Libcurl.curl_multi_remove_handle at h ⊢
  by_cases inside : e ∈ m.curlm.easyp
  · rw [if_pos inside] at h ⊢
    exact update_timer_mono (timer_cb_mono le) h
  · rwa [if_neg inside] at h ⊢

theorem deleteConnInfo_mono {c : ℕ} (le : i ≤ j) (h : lib.deleteConnInfo i m c = some n) :
    lib.deleteConnInfo j m c = some n := by
  unfold Libcurl.deleteConnInfo at h ⊢
  obtain ⟨k, cleanup, rfl⟩ := Option.map_eq_some_iff.mp h
  refine Option.map_eq_some_iff.mpr ⟨k, ?_, rfl⟩
  dsimp only at cleanup ⊢
  cases handle : ((m.follow (some c)).conn c).GetCurlHandle with
  | none =>
      rw [handle] at cleanup
      exact cleanup
  | some e =>
      rw [handle] at cleanup
      obtain ⟨r, remove, rfl⟩ := Option.map_eq_some_iff.mp cleanup
      exact Option.map_eq_some_iff.mpr ⟨r, curl_multi_remove_handle_mono le remove, rfl⟩

theorem checkMessage_mono (i j : ℕ) (m n : Http) (le : i ≤ j) (h : lib.checkMessage i m = some n) :
    lib.checkMessage j m = some n := by
  unfold Libcurl.checkMessage at h ⊢
  cases msglist : m.curlm.msglist with
  | nil =>
      rw [msglist] at h
      exact h
  | cons e rest =>
      rw [msglist] at h
      cases priv : (m.easy e).PRIVATE with
      | none =>
          simp only [priv] at h ⊢
          exact h
      | some c =>
          simp only [priv] at h ⊢
          obtain ⟨k, remove, delete⟩ := Option.bind_eq_some_iff.mp h
          exact Option.bind_eq_some_iff.mpr
            ⟨k, curl_multi_remove_handle_mono le remove, deleteConnInfo_mono le delete⟩

/-- `update_timer` answers if the callback does once libcurl is called again. -/
theorem update_timer_returns (again : lib.timeout m.updates = some 0 →
      ∃ n, lib.evHttpTimerCb i { m with updates := m.updates + 1 } = some n) :
    ∃ n, lib.update_timer (lib.timer_cb i) m = some n := by
  unfold Libcurl.update_timer
  cases due : lib.timeout m.updates with
  | none => exact ⟨_, rfl⟩
  | some t =>
      dsimp only [Libcurl.timer_cb, multiTimerCallback]
      split_ifs with armed now
      · exact ⟨_, rfl⟩
      · exact again (now ▸ due)
      · exact ⟨_, rfl⟩

theorem runsingle_updates (m : Http) (p : Progress) : (runsingle m p).updates = m.updates := by
  cases p with
  | received e buffer =>
      unfold runsingle
      dsimp only
      split_ifs
      · cases (m.easy e).WRITEDATA <;> rfl
      · rfl
  | completed e =>
      unfold runsingle
      dsimp only
      split_ifs <;> rfl

theorem multi_socket_updates (m : Http) (s : Int) (ev_bitmask : Mask) :
    (lib.multi_socket m s ev_bitmask).updates = m.updates := by
  have foldl : ∀ (ps : List Progress) (m : Http), (ps.foldl runsingle m).updates = m.updates := by
    intro ps
    induction ps with
    | nil => exact fun _ => rfl
    | cons p ps ih => exact fun m => (ih _).trans (runsingle_updates m p)
  exact foldl _ _

theorem curl_multi_socket_action_returns (settles : lib.Settles) (m : Http) (s : Int)
    (ev_bitmask : Mask) : ∃ fuel n, lib.curl_multi_socket_action fuel m s ev_bitmask = some n := by
  obtain ⟨last, le, nonzero⟩ := settles m.updates
  obtain ⟨d, rfl⟩ := Nat.exists_eq_add_of_le le
  clear le
  induction d generalizing m s ev_bitmask with
  | zero =>
      refine ⟨1, update_timer_returns (i := 0) fun again => ?_⟩
      rw [multi_socket_updates] at again
      exact absurd again nonzero
  | succ d ih =>
      have updates := @multi_socket_updates lib m s ev_bitmask
      obtain ⟨fuel, n, nested⟩ := ih
        { lib.multi_socket m s ev_bitmask with
          updates := (lib.multi_socket m s ev_bitmask).updates + 1 } CURL_SOCKET_TIMEOUT 0#32
        (by rw [updates, add_right_comm]; exact nonzero)
      exact ⟨fuel + 1, update_timer_returns (i := fuel) fun _ => ⟨n, nested⟩⟩

theorem checkMessage_returns (settles : lib.Settles) (inv : Inv m ∅)
    (waits : m.curlm.msglist.isEmpty = false) : ∃ fuel n, lib.checkMessage fuel m = some n := by
  obtain ⟨e, rest, c, head, held, link⟩ := inv.first waits
  obtain ⟨fuel, k, again⟩ := curl_multi_socket_action_returns settles
    { reported m e c rest with updates := m.updates + 1 } CURL_SOCKET_TIMEOUT 0#32
  obtain ⟨k, update⟩ := update_timer_returns (m := reported m e c rest) (i := fuel)
    fun _ => ⟨k, again⟩
  refine ⟨fuel, freed k e c, ?_⟩
  rw [checkMessage_eq fuel inv head held link, update, Option.bind_some,
    (inv.cleaned head link update).1]

theorem evSockCallback_returns (settles : lib.Settles) (inv : Inv m ∅) (fd : ℕ) (mask : Mask) :
    ∃ fuel n, lib.evSockCallback fuel m fd mask = some n := by
  obtain ⟨i, k, action⟩ := curl_multi_socket_action_returns settles m fd (Libcurl.iEvBitMask mask)
  have inv' := (curl_multi_socket_action_acts action).1.inv ∅ inv
  obtain ⟨j, n, -, check, -⟩ := WhileLoop.runNested_total
    (fun size m => size = m.curlm.easyp.length ∧ Inv m ∅) checkMessage_mono
    (fun size m ⟨same, inv⟩ waits => by
      obtain ⟨fuel, n, turn⟩ := checkMessage_returns settles inv waits
      obtain ⟨kept, fewer, -⟩ := checkMessage_spec inv waits turn
      exact ⟨fuel, n, _, turn, same ▸ fewer, rfl, kept⟩) ⟨rfl, inv'⟩
  refine ⟨max i j, n, Option.bind_eq_some_iff.mpr ⟨k, ?_, ?_⟩⟩
  · exact curl_multi_socket_action_mono (le_max_left i j) action
  · exact WhileLoop.runNested_mono checkMessage_mono (le_max_right i j) check

end Returns

/-- What the program does or has done to it, in any order. -/
inductive Event
  | http (strUrl strHost : Text) (i64TimeOutMs : Int)
  | socket (fd : ℕ) (mask : Mask)
  | timer

def Event.run (lib : Libcurl) (fuel : ℕ) (m : Http) : Event → Option Http
  | http strUrl strHost i64TimeOutMs =>
      (lib.addHttpCondi fuel m strUrl strHost i64TimeOutMs).map Prod.snd
  | socket fd mask => lib.evSockCallback fuel m fd mask
  | timer => lib.evHttpTimerCb fuel m

def idle : Http where
  calls := 0
  updates := 0
  conns := ⟨∅, false⟩
  easies := ⟨∅, false⟩
  slists := ⟨∅, false⟩
  conn _ := ⟨[], 0, fun _ => none, none, []⟩
  easy _ := Easy.init
  slist _ := []
  curlm := ⟨[], ∅, 0, []⟩
  m_iRunning := 0
  timers := []
  log := []
  fault := false
  number _ := 0
  asked := []
  body _ := []

def Run (lib : Libcurl) : Http → Prop :=
  WhileLoop.Reach (· = idle) (fun m event n => ∃ fuel, Event.run lib fuel m event = some n)
    fun _ _ => True

section Results

variable {lib : Libcurl} {m : Http}

theorem idle_inv : Inv idle ∅ := by
  refine ⟨rfl, List.nodup_nil, Finset.disjoint_empty_right _, rfl, ?_, .refl _, ?_, ?_,
    fun _ _ => rfl, rfl⟩
  · exact ⟨rfl, rfl, rfl, by simp [idle], by simp [idle], by simp [idle], by simp [idle]⟩
  · simp [idle]
  · simp [idle]

theorem Run.inv (run : Run lib m) : Inv m ∅ := by
  refine WhileLoop.Reach.invariant (Inv · ∅) ?_ ?_ run
  · rintro m rfl
    exact idle_inv
  · rintro m event n inv - ⟨fuel, h⟩
    cases event with
    | http strUrl strHost i64TimeOutMs =>
        obtain ⟨r, added, rfl⟩ := Option.map_eq_some_iff.mp h
        exact (addHttpCondi_spec inv added).2
    | socket fd mask => exact (evSockCallback_spec inv h).1
    | timer => exact (curl_multi_socket_action_acts h).1.inv ∅ inv

theorem Inv.conns_card (inv : Inv m ∅) : m.conns.held.card = m.curlm.easyp.length := by
  have objects := inv.objects
  rw [Finset.union_empty] at objects
  rw [← List.toFinset_card_of_nodup inv.nodup]
  refine (Finset.card_bij (fun e _ => ((m.easy e).PRIVATE).getD 0) ?_ ?_ ?_).symm
  · intro e own
    obtain ⟨c, held, link⟩ := objects.owner e own
    rwa [link.priv]
  · intro e own e' own' same
    obtain ⟨c, -, link⟩ := objects.owner e own
    obtain ⟨c', -, link'⟩ := objects.owner e' own'
    rw [link.priv, link'.priv] at same
    obtain rfl : c = c' := same
    exact link.same_handle link'
  · intro c held
    obtain ⟨e, own, link⟩ := objects.owns c held
    exact ⟨e, own, by rw [link.priv]; rfl⟩

/-- Every transfer is either in the multi handle, with a `CConnInfo` of its own that holds the address
asked for and all that was received for it, or it was reported once, with these, and its objects
were freed once. -/
theorem transfers_accounted (run : Run lib m) :
    m.fault = false ∧
      (m.log.map Report.no ++ m.curlm.easyp.map m.number).Perm (List.range m.asked.length) ∧
      (∀ r ∈ m.log, m.asked[r.no]? = some r.url ∧ r.resp = m.body r.no) ∧
      (∀ e ∈ m.curlm.easyp, ∃ c ∈ m.conns.held, Linked m e c ∧
        m.asked[m.number e]? = some (m.conn c).m_strUrl ∧
        (m.conn c).m_strResp = m.body (m.number e)) ∧
      (∀ c ∈ m.conns.held, ∃ e ∈ m.curlm.easyp, Linked m e c) ∧
      m.easies = ⟨m.curlm.easyp.toFinset, false⟩ ∧
      m.conns.misused = false ∧ m.conns.held.card = m.curlm.easyp.length ∧
      m.slists.misused = false ∧
      ∀ h, h ∈ m.slists.held ↔ ∃ c ∈ m.conns.held, (m.conn c).m_header = some h := by
  have inv := run.inv
  have objects := inv.objects
  rw [Finset.union_empty] at objects
  refine ⟨inv.fine, inv.numbers, inv.logged, fun e added => ?_, fun c held => ?_, objects.easies,
    objects.conns, inv.conns_card, objects.slists, objects.headers⟩
  · obtain ⟨c, held, link⟩ := inv.owner added
    exact ⟨c, held, link, inv.known e added c link.priv⟩
  · obtain ⟨e, added, link⟩ := objects.owns c held
    exact ⟨e, List.mem_toFinset.mp added, link⟩

/-- libcurl runs the transfer when socket 7 is ready. -/
def oneTransfer : Libcurl where
  progress _ s _ := if s = 7 then [.received 1 "ok".toList, .completed 1] else []
  timeout k := some (if k = 0 then 0 else 4000)
  alloc _ used := used.sup id + 1
  alloc_new := fun _ used => above_notMem used

theorem transfers_accounted_once : ∃ m, Run oneTransfer m ∧ m.asked = ["/300".toList] ∧
    m.log.map Report.no = [0] ∧ m.log.map Report.resp = ["ok".toList] ∧
    m.easies = ⟨∅, false⟩ := by
  obtain ⟨m, h⟩ : ∃ m, (Event.http "/300".toList "host".toList 500).run oneTransfer 2 idle = some m :=
    ⟨_, rfl⟩
  obtain ⟨n, g⟩ : ∃ n, (Event.socket 7 AE_READABLE).run oneTransfer 3 m = some n := by
    obtain rfl := Option.some.inj h
    exact ⟨_, rfl⟩
  have run : Run oneTransfer n := .move (.move (.start rfl) trivial ⟨2, h⟩) trivial ⟨3, g⟩
  obtain ⟨-, -, -, -, -, easies, -⟩ := transfers_accounted run
  obtain rfl := Option.some.inj h
  obtain rfl := Option.some.inj g
  exact ⟨_, run, rfl, rfl, rfl, easies⟩

/-- After a socket event the `CConnInfo`s left are those of the transfers that are running, one each. -/
theorem socket_event_settles (run : Run lib m) (settles : lib.Settles) (fd : ℕ) (mask : Mask) :
    ∃ fuel n, lib.evSockCallback fuel m fd mask = some n ∧ n.curlm.msglist = [] ∧
      n.curlm.easyp.toFinset = n.curlm.alive ∧ (n.conns.held.card : Int) = n.m_iRunning ∧
      (∀ e ∈ n.curlm.alive, ∃ c ∈ n.conns.held, Linked n e c) ∧
      ∀ c ∈ n.conns.held, ∃ e ∈ n.curlm.alive, Linked n e c := by
  obtain ⟨fuel, n, h⟩ := evSockCallback_returns settles run.inv fd mask
  obtain ⟨inv, empty, right⟩ := evSockCallback_spec run.inv h
  have queue := inv.queue
  rw [empty, Multiset.coe_nil, add_zero] at queue
  have alive : n.curlm.easyp.toFinset = n.curlm.alive := by
    ext e
    rw [List.mem_toFinset, ← Multiset.mem_coe, ← queue, Finset.mem_val]
  have objects := inv.objects
  rw [Finset.union_empty, alive] at objects
  refine ⟨fuel, n, h, empty, alive, ?_, objects.owner, objects.owns⟩
  rw [inv.conns_card, right, inv.count, ← alive, List.toFinset_card_of_nodup inv.nodup]

theorem socket_event_settles_once : ∃ m fuel n, Run oneTransfer m ∧
    oneTransfer.evSockCallback fuel m 7 AE_READABLE = some n ∧ n.curlm.msglist = [] := by
  obtain ⟨m, h⟩ : ∃ m, (Event.http "/300".toList "host".toList 500).run oneTransfer 2 idle = some m :=
    ⟨_, rfl⟩
  have run : Run oneTransfer m := .move (.start rfl) trivial ⟨2, h⟩
  have settles : oneTransfer.Settles := fun k => ⟨k + 1, Nat.le_succ k, by simp [oneTransfer]⟩
  obtain ⟨fuel, n, event, empty, -⟩ := socket_event_settles run settles 7 AE_READABLE
  exact ⟨m, fuel, n, run, event, empty⟩

end Results

end AeEventLoop.HttpClient
