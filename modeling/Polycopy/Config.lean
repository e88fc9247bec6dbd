import Polycopy.Models

/-! # Settings: the part of `config.py` the modelled code reads, floats as exact numbers -/

namespace Polycopy

structure Settings where
  paperMode : Bool := true
  allowLiveTrading : Bool := false
  orderKillSwitch : Bool := true
  maxOrderSizeUsd : ℚ := 10
  maxExposurePerMarketUsd : ℚ := 100
  maxExposureGlobalUsd : ℚ := 200
  reviewDelaySeconds : ℚ := 30
  maxSignalExecutionAgeSeconds : ℚ := 300
  signalDetectionBatchSize : Nat := 200
  executionBatchSize : Nat := 50
  maxCopyPrice : ℚ := 9 / 10
  startingBankrollUsd : ℚ := 200
  profitLimitUsd : ℚ := 50
  stopLossFloorUsd : ℚ := 100
  ingestionBatchSize : Nat := 500
  catchUpPagesPerCycle : Nat := 3
  deriving DecidableEq, Repr

end Polycopy
