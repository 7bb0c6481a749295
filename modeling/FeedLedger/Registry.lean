import FeedLedger.Schema

namespace FeedLedger.Registry

def markets : List String := ["spot", "linear"]

def klineIntervals : List String := ["1m", "5m", "15m", "60m", "240m", "1d"]

def bookDepths : List String := ["1", "50", "200", "1000"]

def klineTable (market interval : String) : String := market ++ "_kline_" ++ interval

def orderBookTable (market depth : String) : String := market ++ "_order_book_" ++ depth

def publicTradeTable (market : String) : String := market ++ "_public_trade"

def needed (column : String) (type : FieldType) : Field := ⟨column, type, true, none⟩

/-- A field that has to be there, under a key that is not its column's name. -/
def neededFrom (source column : String) (type : FieldType) : Field := ⟨column, type, true, some source⟩

def maybe (column : String) (type : FieldType) : Field := ⟨column, type, false, none⟩

/-- A schema whose rows have a natural key; a taken key keeps the stored row. -/
def keptFirst (kind : RecordKind) (table : String) (fields : List Field) (keys : List String) : Schema :=
  ⟨kind, table, fields, .ignore, keys, .scalar, false, false⟩

/-- A schema whose rows carry an ingest key. -/
def appended (kind : RecordKind) (table : String) (fields : List Field) (expansion : Expansion) : Schema :=
  ⟨kind, table, fields, .ignore, [Schema.ingestKeyColumn], expansion, true, false⟩

def kline (table : String) : Schema :=
  keptFirst .kline table
    [needed "symbol" .string,
      neededFrom "start" "start_time" .timestamp,
      neededFrom "end" "end_time" .timestamp,
      neededFrom "open" "open_price" .decimal,
      neededFrom "close" "close_price" .decimal,
      neededFrom "high" "high_price" .decimal,
      neededFrom "low" "low_price" .decimal,
      needed "volume" .decimal,
      needed "turnover" .decimal]
    ["symbol", "start_time"]

def publicTrade (table : String) : Schema :=
  keptFirst .publicTrade table
    [needed "symbol" .string,
      needed "trade_time" .timestamp,
      needed "trade_id" .string,
      needed "price" .decimal,
      needed "size" .decimal,
      needed "taker_side" .string,
      maybe "cross_sequence" .integer,
      needed "is_block_trade" .boolean,
      needed "is_rpi" .boolean]
    ["symbol", "trade_id", "trade_time"]

def orderBook (table : String) : Schema :=
  appended .orderBook table
    [needed "symbol" .string,
      needed "engine_time" .timestamp,
      needed "update_id" .integer,
      maybe "cross_sequence" .integer]
    .bookLevels

def spotTickers : Schema :=
  keptFirst .ticker "spot_tickers"
    [needed "symbol" .string,
      needed "timestamp" .timestamp,
      maybe "cross_sequence" .integer,
      needed "last_price" .decimal,
      needed "high_price_24h" .decimal,
      needed "low_price_24h" .decimal,
      needed "prev_price_24h" .decimal,
      needed "volume_24h" .decimal,
      needed "turnover_24h" .decimal,
      needed "price_24h_pcnt" .decimal,
      maybe "usd_index_price" .decimal]
    ["symbol", "timestamp"]

/-- Fields of listing and delivery phases are absent from plain perpetuals. -/
def linearTickers : Schema :=
  keptFirst .ticker "linear_tickers"
    [needed "symbol" .string,
      needed "timestamp" .timestamp,
      needed "tick_direction" .string,
      needed "price_24h_pcnt" .decimal,
      needed "last_price" .decimal,
      needed "prev_price_24h" .decimal,
      needed "high_price_24h" .decimal,
      needed "low_price_24h" .decimal,
      needed "prev_price_1h" .decimal,
      needed "mark_price" .decimal,
      needed "index_price" .decimal,
      needed "open_interest" .decimal,
      needed "open_interest_value" .decimal,
      needed "turnover_24h" .decimal,
      needed "volume_24h" .decimal,
      maybe "funding_interval_hour" .decimal,
      maybe "funding_cap" .decimal,
      needed "next_funding_time" .timestamp,
      needed "funding_rate" .decimal,
      needed "bid1_price" .decimal,
      needed "bid1_size" .decimal,
      needed "ask1_price" .decimal,
      needed "ask1_size" .decimal,
      maybe "pre_open_price" .decimal,
      maybe "pre_qty" .decimal,
      maybe "cur_pre_listing_phase" .string,
      maybe "delivery_time" .timestamp,
      maybe "basis_rate" .decimal,
      maybe "delivery_fee_rate" .decimal,
      maybe "predicted_delivery_price" .decimal,
      maybe "basis" .decimal,
      maybe "basis_rate_year" .decimal]
    ["symbol", "timestamp"]

def linearAllLiquidation : Schema :=
  appended .liquidation "linear_all_liquidation"
    [needed "symbol" .string,
      needed "event_time" .timestamp,
      neededFrom "side" "position_side" .string,
      neededFrom "size" "executed_size" .decimal,
      neededFrom "price" "bankruptcy_price" .decimal]
    .scalar

def fearGreedIndex : Schema :=
  keptFirst .sentimentIndex "fear_greed_index"
    [neededFrom "value" "score" .integer,
      needed "classification" .string,
      needed "update_time" .epochSeconds,
      maybe "btc_price" .decimal,
      maybe "btc_volume" .decimal]
    ["update_time"]

/-- The optional measures of an indicator row, in front of the circulating supply. -/
def indicatorMeasures : List String :=
  ["sma_50", "sma_100", "sma_200", "ema_50", "ema_100", "ema_200", "rsi_14", "stochastic_14", "macd_line",
    "macd_signal", "macd_histogram", "bb_middle", "bb_upper", "bb_lower", "bb_width", "bb_percent_b",
    "atr_14", "std_dev_20", "vwap", "volume_sma_20", "market_cap"]

/-- Indicators are recomputed: a taken key overwrites the stored row. -/
def indicators : Schema where
  kind := .indicator
  table := "indicators"
  fields :=
    [needed "symbol" .string, needed "timestamp" .timestamp, needed "close_price" .float] ++
      indicatorMeasures.map (maybe · .float) ++
      [maybe "circulating_supply" .integer, maybe "market_cap_to_volume" .float]
  policy := .update
  conflictKeys := ["symbol", "timestamp"]
  expansion := .scalar
  syntheticKey := false
  touchUpdated := true

def marketSchemas (market : String) : List Schema :=
  klineIntervals.map (fun i => kline (klineTable market i)) ++
    bookDepths.map (fun d => orderBook (orderBookTable market d)) ++
    [publicTrade (publicTradeTable market)]

def schemas : List Schema :=
  [spotTickers, linearTickers, linearAllLiquidation, fearGreedIndex, indicators] ++
    markets.flatMap marketSchemas

def schema? (table : String) : Option Schema := schemas.find? (·.table = table)

theorem schema?_table {table : String} {s : Schema} (h : schema? table = some s) : s.table = table := by
  simpa using List.find?_some h

theorem mem_of_schema? {table : String} {s : Schema} (h : schema? table = some s) : s ∈ schemas :=
  List.mem_of_find?_eq_some h

end FeedLedger.Registry
