import AeEventLoop.Anet

/-! How `anet.c` writes addresses: `ip:port`, or `[ip]:port` when there is a colon in the address.
The text can be read back, whatever the address is, so peers that differ have texts that differ. -/

namespace AeEventLoop.Anet

def AF_UNIX : ℕ := 1

def INET6_ADDRSTRLEN : ℕ := 46

/-- An address as the kernel gives it: its family, and what it looks like as a `sockaddr_in` and as a
`sockaddr_in6`. -/
structure SockAddr where
  ss_family : ℕ
  sin : Text × ℕ
  sin6 : Text × ℕ

/-- `inet_ntop`, which leaves a buffer alone that is too small. -/
def inet_ntop (address ip : Text) (ip_len : ℕ) : Text :=
  if address.length < ip_len then address else ip

def decimal (n : Int) : Text := (toString n).toList

def addrText (ip : Text) (port : Int) : Text :=
  if ':' ∈ ip then '[' :: ip ++ ']' :: ':' :: decimal port else ip ++ ':' :: decimal port

/-- `snprintf`: what it returns, and what is in the buffer. -/
def anetFormatAddr (buf_len : ℕ) (ip : Text) (port : Int) : ℕ × Text :=
  ((addrText ip port).length, (addrText ip port).take (buf_len - 1))

/-- The peer is `none` if `getpeername` fails; `ip` is what the buffer has in it before. -/
def anetPeerToString (peer : Option SockAddr) (ip : Text) (ip_len : ℕ) : Int × Text × Int :=
  let error : Int × Text × Int :=
    (-1, if ip_len ≥ 2 then ['?'] else if ip_len = 1 then [] else ip, 0)
  match peer with
  | none => error
  | some sa =>
      if ip_len = 0 then error
      else if sa.ss_family = AF_INET then (0, inet_ntop sa.sin.1 ip ip_len, sa.sin.2)
      else if sa.ss_family = AF_INET6 then (0, inet_ntop sa.sin6.1 ip ip_len, sa.sin6.2)
      else if sa.ss_family = AF_UNIX then (0, "/unixsocket".toList.take ip_len, 0)
      else error

def anetFormatPeer (peer : Option SockAddr) (junk : Text) (buf_len : ℕ) : ℕ × Text :=
  let r := anetPeerToString peer junk INET6_ADDRSTRLEN
  anetFormatAddr buf_len r.2.1 r.2.2

/-- Whatever is not `AF_INET` is taken for `AF_INET6`. -/
def anetSockName (name : Option SockAddr) (ip : Text) (ip_len : ℕ) : Int × Text × Int :=
  match name with
  | none => (-1, ['?'], 0)
  | some sa =>
      if sa.ss_family = AF_INET then (0, inet_ntop sa.sin.1 ip ip_len, sa.sin.2)
      else (0, inet_ntop sa.sin6.1 ip ip_len, sa.sin6.2)

def anetFormatSock (name : Option SockAddr) (junk : Text) (fmt_len : ℕ) : ℕ × Text :=
  let r := anetSockName name junk INET6_ADDRSTRLEN
  anetFormatAddr fmt_len r.2.1 r.2.2

def readDecimal : Text → Int
  | '-' :: digits => -(Nat.ofDigitChars 10 digits 0 : ℕ)
  | digits => (Nat.ofDigitChars 10 digits 0 : ℕ)

/-- What is in front of the last colon, and what is behind it. -/
def splitLast (text : Text) : Text × Text :=
  ((text.reverse.dropWhile (· ≠ ':')).tail.reverse, (text.reverse.takeWhile (· ≠ ':')).reverse)

/-- A reader of such texts: what is behind the last colon is the port; if there is another colon, there
are brackets around the address. -/
def readAddr (text : Text) : Text × Int :=
  let r := splitLast text
  (if ':' ∈ r.1 then r.1.tail.dropLast else r.1, readDecimal r.2)

section Decimal

theorem decimal_ofNat (n : ℕ) : decimal n = Nat.toDigits 10 n := by
  rw [decimal, show toString (n : Int) = n.repr from rfl, Nat.toList_repr]

theorem decimal_negSucc (n : ℕ) : decimal (Int.negSucc n) = '-' :: Nat.toDigits 10 (n + 1) := by
  rw [decimal, show toString (Int.negSucc n) = "-" ++ (n + 1).repr from rfl, String.toList_append,
    Nat.toList_repr]
  rfl

theorem digit_of_mem {c : Char} {n : ℕ} (mem : c ∈ Nat.toDigits 10 n) : c.isDigit = true :=
  Nat.isDigit_of_mem_toDigits (by decide) (by decide) mem

theorem readDecimal_decimal (n : Int) : readDecimal (decimal n) = n := by
  cases n with
  | ofNat n =>
      rw [Int.ofNat_eq_natCast, decimal_ofNat]
      unfold readDecimal
      split
      · rename_i digits sign
        have digit := digit_of_mem (c := '-') (n := n) (sign ▸ List.mem_cons_self)
        exact absurd digit (by decide)
      · rw [Nat.ofDigitChars_ten_toDigits]
  | negSucc n =>
      rw [decimal_negSucc, readDecimal, Nat.ofDigitChars_ten_toDigits]
      rfl

theorem colon_notMem_decimal (n : Int) : ':' ∉ decimal n := by
  cases n with
  | ofNat n =>
      rw [Int.ofNat_eq_natCast, decimal_ofNat]
      exact fun mem => absurd (digit_of_mem mem) (by decide)
  | negSucc n =>
      rw [decimal_negSucc, List.mem_cons]
      rintro (sign | mem)
      · exact absurd sign (by decide)
      · exact absurd (digit_of_mem mem) (by decide)

theorem length_decimal_port {port : ℕ} (small : port < 65536) : (decimal port).length ≤ 5 := by
  rw [decimal_ofNat, Nat.length_toDigits_le_iff (by decide) (by decide)]
  omega

end Decimal

section Address

variable {ip : Text} {port : Int} {buf_len : ℕ}

theorem splitLast_append {front back : Text} (none : ':' ∉ back) :
    splitLast (front ++ ':' :: back) = (front, back) := by
  have all : ∀ c ∈ back.reverse, (c ≠ ':' : Bool) = true := by
    intro c mem
    simp only [decide_eq_true_eq]
    rintro rfl
    exact none (List.mem_reverse.mp mem)
  have reversed : (front ++ ':' :: back).reverse = back.reverse ++ ':' :: front.reverse := by
    simp
  rw [splitLast, reversed, List.dropWhile_append_of_pos all, List.takeWhile_append_of_pos all]
  simp

theorem readAddr_addrText (ip : Text) (port : Int) : readAddr (addrText ip port) = (ip, port) := by
  unfold addrText
  by_cases colon : ':' ∈ ip
  · have bracketed : '[' :: ip ++ ']' :: ':' :: decimal port =
        ('[' :: ip ++ [']']) ++ ':' :: decimal port := by simp
    rw [if_pos colon, bracketed]
    unfold readAddr
    rw [splitLast_append (colon_notMem_decimal port)]
    simp [colon, readDecimal_decimal]
  · rw [if_neg colon]
    unfold readAddr
    rw [splitLast_append (colon_notMem_decimal port)]
    simp [colon, readDecimal_decimal]

theorem anetFormatAddr_read (whole : (anetFormatAddr buf_len ip port).1 < buf_len) :
    readAddr (anetFormatAddr buf_len ip port).2 = (ip, port) := by
  have fits : (addrText ip port).length ≤ buf_len - 1 := by
    have : (addrText ip port).length < buf_len := whole
    omega
  rw [anetFormatAddr, List.take_of_length_le fits]
  exact readAddr_addrText ip port

theorem anetFormatAddr_whole (room : 54 ≤ buf_len) (short : (addrText ip port).length < 54) :
    (anetFormatAddr buf_len ip port).1 < buf_len ∧
      readAddr (anetFormatAddr buf_len ip port).2 = (ip, port) :=
  have whole := lt_of_lt_of_le short room
  ⟨whole, anetFormatAddr_read whole⟩

end Address

def peerName : Option SockAddr → Text × Int
  | none => (['?'], 0)
  | some sa =>
      if sa.ss_family = AF_INET then (sa.sin.1, sa.sin.2)
      else if sa.ss_family = AF_INET6 then (sa.sin6.1, sa.sin6.2)
      else if sa.ss_family = AF_UNIX then ("/unixsocket".toList, 0)
      else (['?'], 0)

def sockName : Option SockAddr → Text × Int
  | none => (['?'], 0)
  | some sa =>
      if sa.ss_family = AF_INET then (sa.sin.1, sa.sin.2) else (sa.sin6.1, sa.sin6.2)

structure SockAddr.Proper (sa : SockAddr) : Prop where
  sin : sa.sin.1.length < INET6_ADDRSTRLEN ∧ sa.sin.2 < 65536
  sin6 : sa.sin6.1.length < INET6_ADDRSTRLEN ∧ sa.sin6.2 < 65536

section Peer

variable {peer : Option SockAddr} {buf_len : ℕ}

theorem anetPeerToString_name (proper : ∀ sa, peer = some sa → sa.Proper) (junk : Text) :
    (anetPeerToString peer junk INET6_ADDRSTRLEN).2 = peerName peer := by
  cases peer with
  | none => rfl
  | some sa =>
      obtain ⟨⟨sin, -⟩, ⟨sin6, -⟩⟩ := proper sa rfl
      have long : INET6_ADDRSTRLEN ≥ 2 := by decide
      unfold anetPeerToString peerName
      dsimp only
      rw [if_neg (by decide), if_pos long]
      split_ifs
      · rw [inet_ntop, if_pos sin]
      · rw [inet_ntop, if_pos sin6]
      · rfl
      · rfl

theorem addrText_short {ip : Text} {port : ℕ} (short : ip.length < INET6_ADDRSTRLEN)
    (small : port < 65536) : (addrText ip port).length < 54 := by
  have digits := length_decimal_port small
  unfold INET6_ADDRSTRLEN at short
  unfold addrText
  split_ifs <;> simp <;> omega

theorem peerName_short (proper : ∀ sa, peer = some sa → sa.Proper) :
    (addrText (peerName peer).1 (peerName peer).2).length < 54 := by
  cases peer with
  | none => decide
  | some sa =>
      obtain ⟨⟨sin, low⟩, ⟨sin6, low6⟩⟩ := proper sa rfl
      unfold peerName
      dsimp only
      split_ifs
      · exact addrText_short sin low
      · exact addrText_short sin6 low6
      · decide
      · decide

/-- `anetFormatPeer` with room for 54 characters: the text is complete, and from it the name of the
peer is read back, an unknown peer's included. -/
theorem anetFormatPeer_read (proper : ∀ sa, peer = some sa → sa.Proper) (junk : Text)
    (room : 54 ≤ buf_len) : (anetFormatPeer peer junk buf_len).1 < buf_len ∧
      readAddr (anetFormatPeer peer junk buf_len).2 = peerName peer := by
  have short := peerName_short proper
  unfold anetFormatPeer
  dsimp only
  rw [anetPeerToString_name proper junk]
  exact anetFormatAddr_whole room short

theorem anetFormatPeer_read_loopback :
    readAddr (anetFormatPeer (some ⟨AF_INET6, ([], 0), ("::1".toList, 6379)⟩) [] 64).2 =
      ("::1".toList, 6379) := by
  have proper : ∀ sa, some (⟨AF_INET6, ([], 0), ("::1".toList, 6379)⟩ : SockAddr) = some sa →
      sa.Proper := by
    rintro sa ⟨⟩
    exact ⟨by decide, by decide⟩
  exact (anetFormatPeer_read proper [] (by decide)).2

theorem anetFormatSock_read {name : Option SockAddr} (proper : ∀ sa, name = some sa → sa.Proper)
    (junk : Text) (room : 54 ≤ buf_len) : (anetFormatSock name junk buf_len).1 < buf_len ∧
      readAddr (anetFormatSock name junk buf_len).2 = sockName name := by
  unfold anetFormatSock anetSockName sockName
  cases name with
  | none =>
      have unknown : (addrText ['?'] 0).length < 54 := by decide
      exact anetFormatAddr_whole room unknown
  | some sa =>
      obtain ⟨⟨sin, low⟩, ⟨sin6, low6⟩⟩ := proper sa rfl
      dsimp only
      split_ifs
      · rw [inet_ntop, if_pos sin]
        exact anetFormatAddr_whole room (addrText_short sin low)
      · rw [inet_ntop, if_pos sin6]
        exact anetFormatAddr_whole room (addrText_short sin6 low6)

end Peer

end AeEventLoop.Anet
