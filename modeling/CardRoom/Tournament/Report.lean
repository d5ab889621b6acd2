import CardRoom.Random.Draw
import CardRoom.Tournament.Run

/-! # The report of a simulated tournament

The report has an opening, a line for each event, and the final standings with a division of the
prizes by the chip model. Notes of the journal and the reason for breaking off go to a second
channel.
-/

namespace CardRoom.Tournament

/-- What a run prints on its two channels, and its exit status. -/
structure Transcript where
  status : Nat
  output : List String
  errors : List String
  deriving DecidableEq, Repr

def Event.line : Event → String
  | .busted hand player table => s!"  раздача #{hand}: игрок {player} вылетел (стол {table})"
  | .tableClosed hand table => s!"  раздача #{hand}: стол {table} закрыт"
  | .moved hand m =>
    s!"  раздача #{hand}: пересадка игрока {m.playerId} со стола {m.fromTable} " ++
      s!"за стол {m.toTable}"
  | .blocked hand => s!"  раздача #{hand}: столы не выровнены, все кандидаты на кулдауне"
  | .bubble hand remaining => s!"  раздача #{hand}: ПУЗЫРЬ! осталось {remaining} игроков"
  | .inTheMoney hand remaining => s!"Раздача #{hand}: в деньгах осталось {remaining} игроков, стоп."

def Failure.line : Failure → String
  | .settings e => "Некорректный конфиг балансировки: " ++ e.message
  | .seating e => "Не удалось рассадить игроков: " ++ e.message
  | .balancer e => "Не удалось создать балансировщик: " ++ e.message
  | .ladder e => "Некорректная призовая сетка: " ++ e.message
  | .storage e => "Ошибка хранилища: " ++ e.message
  | .balancing e => "Ошибка балансировки: " ++ e.message

def greeting : String := "poker_economics_dev_cli: стартуем симуляцию турнира…"

def waitingLine (settings : BalancerSettings) : String :=
  s!"Окно кулдауна пересадок: {settings.restHands} раздач"

def simulationBanner : String := "================ TOURNAMENT SIMULATION ================="

def standingsBanner : String := "================ FINAL STANDINGS ================="

def bracketed (ns : List Nat) : String := "[" ++ ", ".intercalate (ns.map toString) ++ "]"

def eventLines (record : List Entry) : List String :=
  record.filterMap fun
    | .event e => some e.line
    | .note _ => none

/-- The lines of the notes, without those for debugging, or none at all when nobody listens. -/
def noteLines (listening : Bool) (record : List Entry) : List String :=
  if listening then
    record.filterMap fun
      | .note n => if n.level = .debug then none else some (n.level.name ++ " " ++ n.text)
      | .event _ => none
  else []

/-- The division of the prizes among the players left. -/
def icmLines (survivors : List Seat) (prizes : List Nat) : List String :=
  let holdings := survivors.map (·.stack.count)
  let prizes := prizes.take holdings.length
  match Icm.payouts holdings prizes Icm.maxPlayers with
  | .ok payouts =>
    ["", s!"ICM-сделка по призам {bracketed prizes}:"] ++
      survivors.zipWith
        (fun s payout => s!"  игрок {s.playerId}: стек {s.stack} → {payout}") payouts
  | .error e => ["ICM не посчитан: " ++ e.message]

def standings {σ : Type} (prizes : List Nat) (s : State σ) : List String :=
  ["", standingsBanner, s!"Вылетело игроков: {s.busted.length}, пересадок: {s.moveCount}"] ++
    (s.store.counts tournament).map (fun (table, count) => s!"  стол {table}: {count} игроков") ++
    icmLines (((s.store.tables? tournament).getD []).flatMap SeatedTable.seats) prizes

/-- The tournament before its first hand, with its prizes. -/
def start {σ : Type} (source : σ) (settings : BalancerSettings) :
    Except Failure (State σ × List Nat) := do
  let store ← openingStore.mapError .seating
  let balancer ← (Balancer.create store settings).mapError .balancer
  let prizes ← (Ladder.prizes prizePool shares).mapError .ladder
  return ({ source, balancer }, prizes)

/-- The tournament as it is reported, for the waiting time that the environment sets. -/
def transcript {σ : Type} [Shuffler σ] (source : σ) (environment : Option String)
    (listening : Bool) : Transcript :=
  match BalancerSettings.ofEnvironment environment with
  | .error e => ⟨1, [greeting], [Failure.line (.settings e)]⟩
  | .ok settings =>
    let opening := [greeting, waitingLine settings]
    match start source settings with
    | .error failure => ⟨1, opening, [failure.line]⟩
    | .ok (state, prizes) =>
      let played := opening ++ ["", simulationBanner]
      match playOn prizes.length handLimit 1 state with
      | .error halt =>
        ⟨1, played ++ eventLines halt.state.record,
          noteLines listening halt.state.record ++ [halt.failure.line]⟩
      | .ok state =>
        ⟨0, played ++ eventLines state.record ++ standings prizes state,
          noteLines listening state.record⟩

/-- The tournament with the cards of the fixed seed. -/
def simulation (environment : Option String) (listening : Bool) : Transcript :=
  transcript (Random.Stream.ofSeed seed) environment listening

end CardRoom.Tournament
