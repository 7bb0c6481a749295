import FeedLedger.Registry
import FeedLedger.Table.Basic

namespace FeedLedger.Catalog

open Column Registry

def offsetsTable : String := "stream_offsets"

/-- The offset each stream has been committed up to. -/
def streamOffsets : Table where
  name := offsetsTable
  columns := [needed "stream_name" .text, needed "offset" .bigInteger, updatedAt]
  primaryKey := "stream_name"
  unique := []
  indexes := []

def numbered (name : String) (columns : List Column) (unique indexes : List NamedColumns) : Table :=
  ⟨name, Column.id :: columns, Column.id.name, unique, indexes⟩

/-- Columns joined by underscores behind a mark and the table's name. -/
def named (mark table : String) (columns : List String) : NamedColumns :=
  ⟨"_".intercalate (mark :: table :: columns), columns⟩

/-- A table of numbered rows with a natural key. -/
def keyed (name : String) (columns : List Column) (key : List String) (indexes : List NamedColumns) : Table :=
  numbered name columns [named "uix" name key] indexes

def klineTable (name : String) : Table :=
  keyed name
    [needed "symbol" .text,
      needed "start_time" .timestamp,
      needed "end_time" .timestamp,
      needed "open_price" .price,
      needed "close_price" .price,
      needed "high_price" .price,
      needed "low_price" .price,
      needed "volume" .price,
      needed "turnover" .price,
      createdAt]
    ["symbol", "start_time"] []

def publicTradeTable (name : String) : Table :=
  keyed name
    [needed "symbol" .text,
      needed "trade_time" .timestamp,
      needed "trade_id" .text,
      needed "price" .price,
      needed "size" .price,
      needed "taker_side" .text,
      maybe "cross_sequence" .bigInteger,
      needed "is_block_trade" .boolean,
      needed "is_rpi" .boolean,
      createdAt]
    ["symbol", "trade_id", "trade_time"] [named "ix" name ["symbol", "trade_time"]]

def orderBookTable (name : String) : Table :=
  numbered name
    [needed "symbol" .text,
      needed "engine_time" .timestamp,
      needed "side" (.shortText 3),
      needed "price" .price,
      needed "size" .price,
      needed "update_id" .bigInteger,
      maybe "cross_sequence" .bigInteger,
      ingestKey,
      createdAt]
    [⟨"", ["ingest_key"]⟩] [named "ix" name ["symbol", "engine_time"]]

def spotTickersTable : Table :=
  keyed "spot_tickers"
    [needed "symbol" .text,
      needed "timestamp" .timestamp,
      maybe "cross_sequence" .bigInteger,
      needed "last_price" .price,
      needed "high_price_24h" .price,
      needed "low_price_24h" .price,
      needed "prev_price_24h" .price,
      needed "volume_24h" .price,
      needed "turnover_24h" .price,
      needed "price_24h_pcnt" .price,
      maybe "usd_index_price" .price,
      createdAt]
    ["symbol", "timestamp"] []

def linearTickersTable : Table :=
  keyed "linear_tickers"
    [needed "symbol" .text,
      needed "timestamp" .timestamp,
      needed "tick_direction" .text,
      needed "price_24h_pcnt" .price,
      needed "last_price" .price,
      needed "prev_price_24h" .price,
      needed "high_price_24h" .price,
      needed "low_price_24h" .price,
      needed "prev_price_1h" .price,
      needed "mark_price" .price,
      needed "index_price" .price,
      needed "open_interest" .price,
      needed "open_interest_value" .price,
      needed "turnover_24h" .price,
      needed "volume_24h" .price,
      maybe "funding_interval_hour" .price,
      maybe "funding_cap" .price,
      needed "next_funding_time" .timestamp,
      needed "funding_rate" .price,
      needed "bid1_price" .price,
      needed "bid1_size" .price,
      needed "ask1_price" .price,
      needed "ask1_size" .price,
      maybe "pre_open_price" .price,
      maybe "pre_qty" .price,
      maybe "cur_pre_listing_phase" .text,
      maybe "delivery_time" .timestamp,
      maybe "basis_rate" .price,
      maybe "delivery_fee_rate" .price,
      maybe "predicted_delivery_price" .price,
      maybe "basis" .price,
      maybe "basis_rate_year" .price,
      createdAt]
    ["symbol", "timestamp"] []

def linearAllLiquidationTable : Table :=
  numbered "linear_all_liquidation"
    [needed "symbol" .text,
      needed "event_time" .timestamp,
      needed "position_side" .text,
      needed "executed_size" .price,
      needed "bankruptcy_price" .price,
      ingestKey,
      createdAt]
    [⟨"", ["ingest_key"]⟩] [named "ix" "linear_all_liquidation" ["symbol", "event_time"]]

def fearGreedIndexTable : Table :=
  keyed "fear_greed_index"
    [needed "score" .integer,
      needed "classification" .text,
      needed "update_time" .timestamp,
      maybe "btc_price" .price,
      maybe "btc_volume" .price,
      createdAt]
    ["update_time"] []

def indicatorsTable : Table :=
  keyed "indicators"
    ([needed "symbol" .text, needed "timestamp" .timestamp, needed "close_price" .double] ++
      indicatorMeasures.map (maybe · .double) ++
      [maybe "circulating_supply" .bigInteger, maybe "market_cap_to_volume" .double, updatedAt])
    ["symbol", "timestamp"] []

def marketTables (market : String) : List Table :=
  klineIntervals.map (fun i => klineTable (Registry.klineTable market i)) ++
    bookDepths.map (fun d => orderBookTable (Registry.orderBookTable market d)) ++
    [publicTradeTable (Registry.publicTradeTable market)]

def recordTables : List Table :=
  [spotTickersTable, linearTickersTable, linearAllLiquidationTable, fearGreedIndexTable, indicatorsTable] ++
    markets.flatMap marketTables

def tables : List Table := streamOffsets :: recordTables

def table? (name : String) : Option Table := tables.find? (·.name = name)

theorem nodup_names : (tables.map (·.name)).Nodup := by decide +kernel

theorem table?_name {name : String} {t : Table} (h : table? name = some t) : t.name = name := by
  simpa using List.find?_some h

end FeedLedger.Catalog
