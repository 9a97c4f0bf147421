import Backprop.Kernel.Registry

/-! The programs of the kernels for a graphics device, line by line, as a manifest lists
them. A host device takes nothing from them but the names they declare. -/

namespace Backprop.Programs

def elementwise : List String := [
  "#include <metal_stdlib>",
  "using namespace metal;",
  "",
  "kernel void Copy(device const float* in [[buffer(0)]],",
  "                 device float* out [[buffer(1)]],",
  "                 constant int& n [[buffer(2)]],",
  "                 uint i [[thread_position_in_grid]])",
  "\x7b",
  "    if (i >= uint(n)) return;",
  "    out[i] = in[i];",
  "\x7d",
  "",
  "kernel void CopyAdd(device const float* in [[buffer(0)]],",
  "                    device float* out [[buffer(1)]],",
  "                    constant int& n [[buffer(2)]],",
  "                    uint i [[thread_position_in_grid]])",
  "\x7b",
  "    if (i >= uint(n)) return;",
  "    out[i] += in[i];",
  "\x7d",
  "",
  "kernel void Add(device const float* a [[buffer(0)]],",
  "                device const float* b [[buffer(1)]],",
  "                device float* c [[buffer(2)]],",
  "                constant int& n [[buffer(3)]],",
  "                uint i [[thread_position_in_grid]])",
  "\x7b",
  "    if (i >= uint(n)) return;",
  "    c[i] = a[i] + b[i];",
  "\x7d",
  "",
  "kernel void ElemWiseProduct(device const float* a [[buffer(0)]],",
  "                            device const float* b [[buffer(1)]],",
  "                            device float* c [[buffer(2)]],",
  "                            constant int& n [[buffer(3)]],",
  "                            uint i [[thread_position_in_grid]])",
  "\x7b",
  "    if (i >= uint(n)) return;",
  "    c[i] = a[i] * b[i];",
  "\x7d",
  "",
  "// dx += a * dy",
  "kernel void ElemWiseProductAdd(device const float* a [[buffer(0)]],",
  "                               device const float* dy [[buffer(1)]],",
  "                               device float* dx [[buffer(2)]],",
  "                               constant int& n [[buffer(3)]],",
  "                               uint i [[thread_position_in_grid]])",
  "\x7b",
  "    if (i >= uint(n)) return;",
  "    dx[i] += a[i] * dy[i];",
  "\x7d",
  "",
  "kernel void SubtractFromConst(device const float* a [[buffer(0)]],",
  "                              device float* c [[buffer(1)]],",
  "                              constant float& value [[buffer(2)]],",
  "                              constant int& n [[buffer(3)]],",
  "                              uint i [[thread_position_in_grid]])",
  "\x7b",
  "    if (i >= uint(n)) return;",
  "    c[i] = value - a[i];",
  "\x7d",
  "",
  "kernel void SubtractFromConstGrad(device const float* dy [[buffer(0)]],",
  "                                  device float* dx [[buffer(1)]],",
  "                                  constant int& n [[buffer(2)]],",
  "                                  uint i [[thread_position_in_grid]])",
  "\x7b",
  "    if (i >= uint(n)) return;",
  "    dx[i] -= dy[i];",
  "\x7d",
  "",
  "kernel void AddToMatrix(device const float* a [[buffer(0)]],",
  "                        device const float* bias [[buffer(1)]],",
  "                        device float* c [[buffer(2)]],",
  "                        constant int& cols [[buffer(3)]],",
  "                        constant int& rows [[buffer(4)]],",
  "                        uint i [[thread_position_in_grid]])",
  "\x7b",
  "    if (i >= uint(cols * rows)) return;",
  "    c[i] = a[i] + bias[i % uint(cols)];",
  "\x7d",
  "",
  "// One thread per column.",
  "kernel void AddToMatrixGrad(device const float* dy [[buffer(0)]],",
  "                            device float* dbias [[buffer(1)]],",
  "                            constant int& cols [[buffer(2)]],",
  "                            constant int& rows [[buffer(3)]],",
  "                            uint j [[thread_position_in_grid]])",
  "\x7b",
  "    if (j >= uint(cols)) return;",
  "    float sum = 0.0f;",
  "    for (int r = 0; r < rows; r++) \x7b",
  "        sum += dy[r * cols + j];",
  "    \x7d",
  "    dbias[j] += sum;",
  "\x7d",
  "",
  "kernel void AddToImageTensor(device const float* a [[buffer(0)]],",
  "                             device const float* bias [[buffer(1)]],",
  "                             device float* c [[buffer(2)]],",
  "                             constant int& plane [[buffer(3)]],",
  "                             constant int& channels [[buffer(4)]],",
  "                             constant int& batch [[buffer(5)]],",
  "                             uint i [[thread_position_in_grid]])",
  "\x7b",
  "    if (i >= uint(plane * channels * batch)) return;",
  "    c[i] = a[i] + bias[(i / uint(plane)) % uint(channels)];",
  "\x7d",
  "",
  "// One thread per channel.",
  "kernel void AddToImageTensorGrad(device const float* dy [[buffer(0)]],",
  "                                 device float* dbias [[buffer(1)]],",
  "                                 constant int& plane [[buffer(2)]],",
  "                                 constant int& channels [[buffer(3)]],",
  "                                 constant int& batch [[buffer(4)]],",
  "                                 uint ch [[thread_position_in_grid]])",
  "\x7b",
  "    if (ch >= uint(channels)) return;",
  "    float sum = 0.0f;",
  "    for (int b = 0; b < batch; b++) \x7b",
  "        int start = (b * channels + int(ch)) * plane;",
  "        for (int p = 0; p < plane; p++) \x7b",
  "            sum += dy[start + p];",
  "        \x7d",
  "    \x7d",
  "    dbias[ch] += sum;",
  "\x7d",
  "",
  "struct SplitDims \x7b",
  "    int tile;",
  "    int outX, outY;",
  "    int inX, inY;",
  "\x7d;",
  "",
  "// Source index of tile element (x, y) of `plane`, or -1 past the input edge.",
  "static int split_source(SplitDims d, int plane, int x, int y)",
  "\x7b",
  "    int tilesX = max((d.inX + d.outX - 1) / d.outX, 1);",
  "    int sx = (d.tile % tilesX) * d.outX + x;",
  "    int sy = (d.tile / tilesX) * d.outY + y;",
  "    if (sx >= d.inX || sy >= d.inY) return -1;",
  "    return (plane * d.inY + sy) * d.inX + sx;",
  "\x7d",
  "",
  "kernel void SplitData(device const float* in [[buffer(0)]],",
  "                      device float* out [[buffer(1)]],",
  "                      constant int& tile [[buffer(2)]],",
  "                      constant int& outX [[buffer(3)]],",
  "                      constant int& outY [[buffer(4)]],",
  "                      constant int& inX [[buffer(5)]],",
  "                      constant int& inY [[buffer(6)]],",
  "                      constant int& inZ [[buffer(7)]],",
  "                      constant int& inW [[buffer(8)]],",
  "                      uint3 gid [[thread_position_in_grid]])",
  "\x7b",
  "    int x = int(gid.x), y = int(gid.y), plane = int(gid.z);",
  "    if (x >= outX || y >= outY || plane >= inZ * inW) return;",
  "    SplitDims d = \x7b tile, outX, outY, inX, inY \x7d;",
  "    int src = split_source(d, plane, x, y);",
  "    out[(plane * outY + y) * outX + x] = src < 0 ? 0.0f : in[src];",
  "\x7d",
  "",
  "kernel void SplitDataGrad(device const float* dy [[buffer(0)]],",
  "                          device float* dx [[buffer(1)]],",
  "                          constant int& tile [[buffer(2)]],",
  "                          constant int& outX [[buffer(3)]],",
  "                          constant int& outY [[buffer(4)]],",
  "                          constant int& inX [[buffer(5)]],",
  "                          constant int& inY [[buffer(6)]],",
  "                          constant int& inZ [[buffer(7)]],",
  "                          constant int& inW [[buffer(8)]],",
  "                          uint3 gid [[thread_position_in_grid]])",
  "\x7b",
  "    int x = int(gid.x), y = int(gid.y), plane = int(gid.z);",
  "    if (x >= outX || y >= outY || plane >= inZ * inW) return;",
  "    SplitDims d = \x7b tile, outX, outY, inX, inY \x7d;",
  "    int src = split_source(d, plane, x, y);",
  "    if (src >= 0) \x7b",
  "        dx[src] += dy[(plane * outY + y) * outX + x];",
  "    \x7d",
  "\x7d",
  "",
  "// Diagnostic: log[0] counts entries, entries follow.",
  "kernel void AppendId(device float* log [[buffer(0)]],",
  "                     constant float& id [[buffer(1)]],",
  "                     uint i [[thread_position_in_grid]])",
  "\x7b",
  "    if (i != 0) return;",
  "    int count = int(log[0]);",
  "    log[count + 1] = id;",
  "    log[0] = float(count + 1);",
  "\x7d"]

def activation : List String := [
  "#include <metal_stdlib>",
  "using namespace metal;",
  "",
  "kernel void ReLU(device const float* in [[buffer(0)]],",
  "                 device float* out [[buffer(1)]],",
  "                 constant int& n [[buffer(2)]],",
  "                 uint i [[thread_position_in_grid]])",
  "\x7b",
  "    if (i >= uint(n)) return;",
  "    out[i] = max(in[i], 0.0f);",
  "\x7d",
  "",
  "// x is the forward input.",
  "kernel void ReLUGrad(device const float* x [[buffer(0)]],",
  "                     device const float* dy [[buffer(1)]],",
  "                     device float* dx [[buffer(2)]],",
  "                     constant int& n [[buffer(3)]],",
  "                     uint i [[thread_position_in_grid]])",
  "\x7b",
  "    if (i >= uint(n)) return;",
  "    dx[i] += x[i] > 0.0f ? dy[i] : 0.0f;",
  "\x7d",
  "",
  "kernel void Sigmoid(device const float* in [[buffer(0)]],",
  "                    device float* out [[buffer(1)]],",
  "                    constant int& n [[buffer(2)]],",
  "                    uint i [[thread_position_in_grid]])",
  "\x7b",
  "    if (i >= uint(n)) return;",
  "    out[i] = 1.0f / (1.0f + exp(-in[i]));",
  "\x7d",
  "",
  "// y is the forward output.",
  "kernel void SigmoidGrad(device const float* y [[buffer(0)]],",
  "                        device const float* dy [[buffer(1)]],",
  "                        device float* dx [[buffer(2)]],",
  "                        constant int& n [[buffer(3)]],",
  "                        uint i [[thread_position_in_grid]])",
  "\x7b",
  "    if (i >= uint(n)) return;",
  "    dx[i] += dy[i] * y[i] * (1.0f - y[i]);",
  "\x7d",
  "",
  "kernel void Tanh(device const float* in [[buffer(0)]],",
  "                 device float* out [[buffer(1)]],",
  "                 constant int& n [[buffer(2)]],",
  "                 uint i [[thread_position_in_grid]])",
  "\x7b",
  "    if (i >= uint(n)) return;",
  "    out[i] = precise::tanh(in[i]);",
  "\x7d",
  "",
  "kernel void TanhGrad(device const float* y [[buffer(0)]],",
  "                     device const float* dy [[buffer(1)]],",
  "                     device float* dx [[buffer(2)]],",
  "                     constant int& n [[buffer(3)]],",
  "                     uint i [[thread_position_in_grid]])",
  "\x7b",
  "    if (i >= uint(n)) return;",
  "    dx[i] += dy[i] * (1.0f - y[i] * y[i]);",
  "\x7d"]

def matrixProduct : List String := [
  "#include <metal_stdlib>",
  "using namespace metal;",
  "",
  "// C[M x N] = A[M x K] . B[K x N], row-major, one thread per output element.",
  "static void gemm(device const float* a, device const float* b, device float* c,",
  "                 int m, int n, int k, uint2 gid, float beta)",
  "\x7b",
  "    int col = int(gid.x);",
  "    int row = int(gid.y);",
  "    if (row >= m || col >= n) return;",
  "    float sum = 0.0f;",
  "    for (int p = 0; p < k; p++) \x7b",
  "        sum += a[row * k + p] * b[p * n + col];",
  "    \x7d",
  "    c[row * n + col] = sum + beta * c[row * n + col];",
  "\x7d",
  "",
  "kernel void MatrixMul(device const float* a [[buffer(0)]],",
  "                      device const float* b [[buffer(1)]],",
  "                      device float* c [[buffer(2)]],",
  "                      constant int& M [[buffer(3)]],",
  "                      constant int& N [[buffer(4)]],",
  "                      constant int& K [[buffer(5)]],",
  "                      uint2 gid [[thread_position_in_grid]])",
  "\x7b",
  "    gemm(a, b, c, M, N, K, gid, 0.0f);",
  "\x7d",
  "",
  "kernel void MatrixMulAdd(device const float* a [[buffer(0)]],",
  "                         device const float* b [[buffer(1)]],",
  "                         device float* c [[buffer(2)]],",
  "                         constant int& M [[buffer(3)]],",
  "                         constant int& N [[buffer(4)]],",
  "                         constant int& K [[buffer(5)]],",
  "                         uint2 gid [[thread_position_in_grid]])",
  "\x7b",
  "    gemm(a, b, c, M, N, K, gid, 1.0f);",
  "\x7d",
  "",
  "// Transposes every rows x cols plane; z walks the planes.",
  "kernel void Transpose(device const float* in [[buffer(0)]],",
  "                      device float* out [[buffer(1)]],",
  "                      constant int& cols [[buffer(2)]],",
  "                      constant int& rows [[buffer(3)]],",
  "                      uint3 gid [[thread_position_in_grid]])",
  "\x7b",
  "    int c = int(gid.x), r = int(gid.y);",
  "    if (c >= cols || r >= rows) return;",
  "    int base = int(gid.z) * rows * cols;",
  "    out[base + c * rows + r] = in[base + r * cols + c];",
  "\x7d"]

def classification : List String := [
  "#include <metal_stdlib>",
  "using namespace metal;",
  "",
  "#define MIN_PROBABILITY 1e-30f",
  "",
  "static int label_index(float label, int cols)",
  "\x7b",
  "    int index = int(label);",
  "    return (label >= 0.0f && index < cols) ? index : -1;",
  "\x7d",
  "",
  "// One thread per row.",
  "kernel void Softmax(device const float* a [[buffer(0)]],",
  "                    device float* c [[buffer(1)]],",
  "                    constant int& cols [[buffer(2)]],",
  "                    constant int& rows [[buffer(3)]],",
  "                    uint r [[thread_position_in_grid]])",
  "\x7b",
  "    if (r >= uint(rows)) return;",
  "    int base = int(r) * cols;",
  "    float top = -INFINITY;",
  "    for (int i = 0; i < cols; i++) \x7b",
  "        top = max(top, a[base + i]);",
  "    \x7d",
  "    float sum = 0.0f;",
  "    for (int i = 0; i < cols; i++) \x7b",
  "        float e = exp(a[base + i] - top);",
  "        c[base + i] = e;",
  "        sum += e;",
  "    \x7d",
  "    for (int i = 0; i < cols; i++) \x7b",
  "        c[base + i] /= sum;",
  "    \x7d",
  "\x7d",
  "",
  "// dx += y * (dy - sum(dy * y)), one thread per row.",
  "kernel void SoftmaxGrad(device const float* dy [[buffer(0)]],",
  "                        device const float* y [[buffer(1)]],",
  "                        device float* dx [[buffer(2)]],",
  "                        constant int& cols [[buffer(3)]],",
  "                        constant int& rows [[buffer(4)]],",
  "                        uint r [[thread_position_in_grid]])",
  "\x7b",
  "    if (r >= uint(rows)) return;",
  "    int base = int(r) * cols;",
  "    float dot = 0.0f;",
  "    for (int i = 0; i < cols; i++) \x7b",
  "        dot += dy[base + i] * y[base + i];",
  "    \x7d",
  "    for (int i = 0; i < cols; i++) \x7b",
  "        dx[base + i] += y[base + i] * (dy[base + i] - dot);",
  "    \x7d",
  "\x7d",
  "",
  "kernel void MeanSquaredError(device const float* a [[buffer(0)]],",
  "                             device const float* label [[buffer(1)]],",
  "                             device float* c [[buffer(2)]],",
  "                             constant int& cols [[buffer(3)]],",
  "                             constant int& rows [[buffer(4)]],",
  "                             uint i [[thread_position_in_grid]])",
  "\x7b",
  "    if (i != 0) return;",
  "    float sum = 0.0f;",
  "    for (int j = 0; j < cols * rows; j++) \x7b",
  "        float d = a[j] - label[j];",
  "        sum += d * d;",
  "    \x7d",
  "    c[0] = sum / (2.0f * float(max(rows, 1)));",
  "\x7d",
  "",
  "kernel void MeanSquaredErrorGrad(device const float* a [[buffer(0)]],",
  "                                 device const float* label [[buffer(1)]],",
  "                                 device float* dx [[buffer(2)]],",
  "                                 constant int& n [[buffer(3)]],",
  "                                 constant int& rows [[buffer(4)]],",
  "                                 uint i [[thread_position_in_grid]])",
  "\x7b",
  "    if (i >= uint(n)) return;",
  "    dx[i] += (a[i] - label[i]) / float(max(rows, 1));",
  "\x7d",
  "",
  "kernel void CrossEntropy(device const float* probs [[buffer(0)]],",
  "                         device const float* label [[buffer(1)]],",
  "                         device float* c [[buffer(2)]],",
  "                         constant int& cols [[buffer(3)]],",
  "                         constant int& rows [[buffer(4)]],",
  "                         uint i [[thread_position_in_grid]])",
  "\x7b",
  "    if (i != 0) return;",
  "    float total = 0.0f;",
  "    for (int r = 0; r < rows; r++) \x7b",
  "        int k = label_index(label[r], cols);",
  "        if (k >= 0) \x7b",
  "            total -= log(max(probs[r * cols + k], MIN_PROBABILITY));",
  "        \x7d",
  "    \x7d",
  "    c[0] = total / float(max(rows, 1));",
  "\x7d",
  "",
  "// One thread per row; only the labelled column receives gradient.",
  "kernel void CrossEntropyGrad(device const float* probs [[buffer(0)]],",
  "                             device const float* label [[buffer(1)]],",
  "                             device float* dx [[buffer(2)]],",
  "                             constant int& cols [[buffer(3)]],",
  "                             constant int& rows [[buffer(4)]],",
  "                             uint r [[thread_position_in_grid]])",
  "\x7b",
  "    if (r >= uint(rows)) return;",
  "    int k = label_index(label[r], cols);",
  "    if (k < 0) return;",
  "    int i = int(r) * cols + k;",
  "    dx[i] -= 1.0f / (float(max(rows, 1)) * max(probs[i], MIN_PROBABILITY));",
  "\x7d",
  "",
  "kernel void ClassificationAccuracy(device const float* probs [[buffer(0)]],",
  "                                   device const float* label [[buffer(1)]],",
  "                                   device float* c [[buffer(2)]],",
  "                                   constant int& cols [[buffer(3)]],",
  "                                   constant int& rows [[buffer(4)]],",
  "                                   uint i [[thread_position_in_grid]])",
  "\x7b",
  "    if (i != 0) return;",
  "    int correct = 0;",
  "    for (int r = 0; r < rows; r++) \x7b",
  "        int best = 0;",
  "        for (int j = 1; j < cols; j++) \x7b",
  "            if (probs[r * cols + j] > probs[r * cols + best]) best = j;",
  "        \x7d",
  "        if (label_index(label[r], cols) == best) correct++;",
  "    \x7d",
  "    c[0] = float(correct) / float(max(rows, 1));",
  "\x7d"]

def convolution : List String := [
  "#include <metal_stdlib>",
  "using namespace metal;",
  "",
  "// Planes are laid out ((w * Z + z) * Y + y) * X + x; kernels (kW, kZ, kY, kX).",
  "",
  "static float at(device const float* data, int X, int Y, int Z, int w, int z, int y, int x)",
  "\x7b",
  "    if (x < 0 || y < 0 || x >= X || y >= Y) return 0.0f;",
  "    return data[((w * Z + z) * Y + y) * X + x];",
  "\x7d",
  "",
  "// One thread per output element; z walks batch * output channels.",
  "kernel void Convolution(device const float* in [[buffer(0)]],",
  "                        device const float* k [[buffer(1)]],",
  "                        device float* out [[buffer(2)]],",
  "                        constant int& inX [[buffer(3)]],",
  "                        constant int& inY [[buffer(4)]],",
  "                        constant int& kX [[buffer(5)]],",
  "                        constant int& kY [[buffer(6)]],",
  "                        constant int& kZ [[buffer(7)]],",
  "                        constant int& kW [[buffer(8)]],",
  "                        constant int& pad [[buffer(9)]],",
  "                        constant int& stride [[buffer(10)]],",
  "                        constant int& batch [[buffer(11)]],",
  "                        uint3 gid [[thread_position_in_grid]])",
  "\x7b",
  "    int outX = (inX + 2 * pad - kX) / stride + 1;",
  "    int outY = (inY + 2 * pad - kY) / stride + 1;",
  "    int ox = int(gid.x), oy = int(gid.y);",
  "    int b = int(gid.z) / kW, oc = int(gid.z) % kW;",
  "    if (ox >= outX || oy >= outY || b >= batch) return;",
  "",
  "    float sum = 0.0f;",
  "    for (int c = 0; c < kZ; c++) \x7b",
  "        for (int j = 0; j < kY; j++) \x7b",
  "            int iy = oy * stride + j - pad;",
  "            for (int i = 0; i < kX; i++) \x7b",
  "                int ix = ox * stride + i - pad;",
  "                sum += at(in, inX, inY, kZ, b, c, iy, ix) * k[((oc * kZ + c) * kY + j) * kX + i];",
  "            \x7d",
  "        \x7d",
  "    \x7d",
  "    out[((b * kW + oc) * outY + oy) * outX + ox] = sum;",
  "\x7d",
  "",
  "// Accumulating convolution over an input dilated by `dilation`; used with the",
  "// rotated kernel to push output gradients back to the input.",
  "kernel void ConvolutionAdd(device const float* in [[buffer(0)]],",
  "                           device const float* k [[buffer(1)]],",
  "                           device float* out [[buffer(2)]],",
  "                           constant int& inX [[buffer(3)]],",
  "                           constant int& inY [[buffer(4)]],",
  "                           constant int& kX [[buffer(5)]],",
  "                           constant int& kY [[buffer(6)]],",
  "                           constant int& kZ [[buffer(7)]],",
  "                           constant int& kW [[buffer(8)]],",
  "                           constant int& padX [[buffer(9)]],",
  "                           constant int& padY [[buffer(10)]],",
  "                           constant int& dilation [[buffer(11)]],",
  "                           constant int& outX [[buffer(12)]],",
  "                           constant int& outY [[buffer(13)]],",
  "                           constant int& batch [[buffer(14)]],",
  "                           uint3 gid [[thread_position_in_grid]])",
  "\x7b",
  "    int ox = int(gid.x), oy = int(gid.y);",
  "    int b = int(gid.z) / kW, oc = int(gid.z) % kW;",
  "    if (ox >= outX || oy >= outY || b >= batch) return;",
  "    int d = max(dilation, 1);",
  "",
  "    float sum = 0.0f;",
  "    for (int c = 0; c < kZ; c++) \x7b",
  "        for (int j = 0; j < kY; j++) \x7b",
  "            int dy = oy - padY + j;",
  "            if (dy < 0 || dy % d != 0) continue;",
  "            for (int i = 0; i < kX; i++) \x7b",
  "                int dx = ox - padX + i;",
  "                if (dx < 0 || dx % d != 0) continue;",
  "                sum += at(in, inX, inY, kZ, b, c, dy / d, dx / d) * k[((oc * kZ + c) * kY + j) * kX + i];",
  "            \x7d",
  "        \x7d",
  "    \x7d",
  "    out[((b * kW + oc) * outY + oy) * outX + ox] += sum;",
  "\x7d",
  "",
  "// One thread per kernel weight; z walks output * input channels.",
  "kernel void ConvolutionWeightGrad(device const float* in [[buffer(0)]],",
  "                                  device const float* dy [[buffer(1)]],",
  "                                  device float* dk [[buffer(2)]],",
  "                                  constant int& inX [[buffer(3)]],",
  "                                  constant int& inY [[buffer(4)]],",
  "                                  constant int& outX [[buffer(5)]],",
  "                                  constant int& outY [[buffer(6)]],",
  "                                  constant int& kX [[buffer(7)]],",
  "                                  constant int& kY [[buffer(8)]],",
  "                                  constant int& kZ [[buffer(9)]],",
  "                                  constant int& kW [[buffer(10)]],",
  "                                  constant int& pad [[buffer(11)]],",
  "                                  constant int& stride [[buffer(12)]],",
  "                                  constant int& batch [[buffer(13)]],",
  "                                  uint3 gid [[thread_position_in_grid]])",
  "\x7b",
  "    int i = int(gid.x), j = int(gid.y);",
  "    int oc = int(gid.z) / kZ, c = int(gid.z) % kZ;",
  "    if (i >= kX || j >= kY || oc >= kW) return;",
  "",
  "    float sum = 0.0f;",
  "    for (int b = 0; b < batch; b++) \x7b",
  "        for (int oy = 0; oy < outY; oy++) \x7b",
  "            int iy = oy * stride + j - pad;",
  "            for (int ox = 0; ox < outX; ox++) \x7b",
  "                int ix = ox * stride + i - pad;",
  "                sum += at(in, inX, inY, kZ, b, c, iy, ix) * dy[((b * kW + oc) * outY + oy) * outX + ox];",
  "            \x7d",
  "        \x7d",
  "    \x7d",
  "    dk[((oc * kZ + c) * kY + j) * kX + i] += sum;",
  "\x7d",
  "",
  "// Rotates each kernel plane by 180 degrees and swaps input/output channels.",
  "kernel void RotateAndReorder(device const float* k [[buffer(0)]],",
  "                             device float* out [[buffer(1)]],",
  "                             constant int& kX [[buffer(2)]],",
  "                             constant int& kY [[buffer(3)]],",
  "                             constant int& kZ [[buffer(4)]],",
  "                             constant int& kW [[buffer(5)]],",
  "                             uint3 gid [[thread_position_in_grid]])",
  "\x7b",
  "    int i = int(gid.x), j = int(gid.y);",
  "    int oc = int(gid.z) / kZ, c = int(gid.z) % kZ;",
  "    if (i >= kX || j >= kY || oc >= kW) return;",
  "    out[((c * kW + oc) * kY + (kY - 1 - j)) * kX + (kX - 1 - i)] = k[((oc * kZ + c) * kY + j) * kX + i];",
  "\x7d"]

def pooling : List String := [
  "#include <metal_stdlib>",
  "using namespace metal;",
  "",
  "struct PoolDims \x7b",
  "    int inX, inY, planes, stride, size, outX, outY;",
  "\x7d;",
  "",
  "static PoolDims pool_dims(int inX, int inY, int planes, int stride, int padX, int padY, int size)",
  "\x7b",
  "    PoolDims d;",
  "    d.inX = inX;",
  "    d.inY = inY;",
  "    d.planes = planes;",
  "    d.stride = stride;",
  "    d.size = size;",
  "    d.outX = (inX + padX - size) / stride + 1;",
  "    d.outY = (inY + padY - size) / stride + 1;",
  "    return d;",
  "\x7d",
  "",
  "// First maximum of window (ox, oy), clipped to the input; -1 if empty.",
  "static int window_argmax(device const float* in, PoolDims d, int plane, int ox, int oy)",
  "\x7b",
  "    int base = plane * d.inX * d.inY;",
  "    int best = -1;",
  "    for (int y = oy * d.stride; y < min(oy * d.stride + d.size, d.inY); y++) \x7b",
  "        for (int x = ox * d.stride; x < min(ox * d.stride + d.size, d.inX); x++) \x7b",
  "            int i = base + y * d.inX + x;",
  "            if (best < 0 || in[i] > in[best]) best = i;",
  "        \x7d",
  "    \x7d",
  "    return best;",
  "\x7d",
  "",
  "kernel void MaxPooling(device const float* in [[buffer(0)]],",
  "                       device float* out [[buffer(1)]],",
  "                       constant int& inX [[buffer(2)]],",
  "                       constant int& inY [[buffer(3)]],",
  "                       constant int& planes [[buffer(4)]],",
  "                       constant int& stride [[buffer(5)]],",
  "                       constant int& padX [[buffer(6)]],",
  "                       constant int& padY [[buffer(7)]],",
  "                       constant int& size [[buffer(8)]],",
  "                       uint3 gid [[thread_position_in_grid]])",
  "\x7b",
  "    PoolDims d = pool_dims(inX, inY, planes, stride, padX, padY, size);",
  "    int ox = int(gid.x), oy = int(gid.y), plane = int(gid.z);",
  "    if (ox >= d.outX || oy >= d.outY || plane >= planes) return;",
  "    int best = window_argmax(in, d, plane, ox, oy);",
  "    out[(plane * d.outY + oy) * d.outX + ox] = best < 0 ? 0.0f : in[best];",
  "\x7d",
  "",
  "// One thread per input element, gathering every window it is the maximum of.",
  "kernel void MaxPoolingGrad(device const float* in [[buffer(0)]],",
  "                           device const float* dy [[buffer(1)]],",
  "                           device float* dx [[buffer(2)]],",
  "                           constant int& inX [[buffer(3)]],",
  "                           constant int& inY [[buffer(4)]],",
  "                           constant int& planes [[buffer(5)]],",
  "                           constant int& stride [[buffer(6)]],",
  "                           constant int& padX [[buffer(7)]],",
  "                           constant int& padY [[buffer(8)]],",
  "                           constant int& size [[buffer(9)]],",
  "                           uint3 gid [[thread_position_in_grid]])",
  "\x7b",
  "    PoolDims d = pool_dims(inX, inY, planes, stride, padX, padY, size);",
  "    int x = int(gid.x), y = int(gid.y), plane = int(gid.z);",
  "    if (x >= inX || y >= inY || plane >= planes) return;",
  "    int i = (plane * inY + y) * inX + x;",
  "",
  "    int firstY = (max(y + 1 - size, 0) + stride - 1) / stride;",
  "    int lastY = min(y / stride + 1, d.outY);",
  "    int firstX = (max(x + 1 - size, 0) + stride - 1) / stride;",
  "    int lastX = min(x / stride + 1, d.outX);",
  "    float sum = 0.0f;",
  "    for (int oy = firstY; oy < lastY; oy++) \x7b",
  "        for (int ox = firstX; ox < lastX; ox++) \x7b",
  "            if (window_argmax(in, d, plane, ox, oy) == i) \x7b",
  "                sum += dy[(plane * d.outY + oy) * d.outX + ox];",
  "            \x7d",
  "        \x7d",
  "    \x7d",
  "    dx[i] += sum;",
  "\x7d"]

def descent : List String := [
  "#include <metal_stdlib>",
  "using namespace metal;",
  "",
  "kernel void GradientDescent(device const float* grad [[buffer(0)]],",
  "                            device float* weight [[buffer(1)]],",
  "                            constant float& alpha [[buffer(2)]],",
  "                            constant int& n [[buffer(3)]],",
  "                            uint i [[thread_position_in_grid]])",
  "\x7b",
  "    if (i >= uint(n)) return;",
  "    weight[i] -= alpha * grad[i];",
  "\x7d",
  "",
  "// Bias-corrected Adam; t counts steps from 1.",
  "kernel void Adam(device const float* grad [[buffer(0)]],",
  "                 device float* m [[buffer(1)]],",
  "                 device float* v [[buffer(2)]],",
  "                 device float* weight [[buffer(3)]],",
  "                 constant float& alpha [[buffer(4)]],",
  "                 constant float& beta1 [[buffer(5)]],",
  "                 constant float& beta2 [[buffer(6)]],",
  "                 constant float& epsilon [[buffer(7)]],",
  "                 constant int& n [[buffer(8)]],",
  "                 constant int& t [[buffer(9)]],",
  "                 uint i [[thread_position_in_grid]])",
  "\x7b",
  "    if (i >= uint(n)) return;",
  "    float step = float(max(t, 1));",
  "    float g = grad[i];",
  "    m[i] = beta1 * m[i] + (1.0f - beta1) * g;",
  "    v[i] = beta2 * v[i] + (1.0f - beta2) * g * g;",
  "    float mHat = m[i] / (1.0f - pow(beta1, step));",
  "    float vHat = v[i] / (1.0f - pow(beta2, step));",
  "    weight[i] -= alpha * mHat / (sqrt(vHat) + epsilon);",
  "\x7d"]

def text (lines : List String) : String := String.join (lines.map (· ++ "\n"))

/-- Families of kernels in the order of the manifest, each with its program. -/
def families : List (String × String) := [
  ("elementwise", text elementwise),
  ("activation", text activation),
  ("matmul", text matrixProduct),
  ("softmax", text classification),
  ("conv", text convolution),
  ("pool", text pooling),
  ("optim", text descent)]

def files : List (String × String) :=
  ("kernels.txt", text (families.map (·.1))) ::
    families.map fun (name, program) => (name ++ ".metal", program)

def registry : Registry := families.foldl (fun r family => (r.addSource family.2).1) {}

end Backprop.Programs
